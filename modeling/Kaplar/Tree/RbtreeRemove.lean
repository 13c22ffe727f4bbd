import Kaplar.Tree.RbtreeTraversal

/-! # What removal does to the tree

A removal takes out a node with at most one child: the node itself, or its
successor, which then moves into the place of the node. If the node taken out was
black, the hole is one black node short, and the fixup moves this deficit up the
path until it can be settled.
-/
namespace Kaplar.RedBlack
open ColorTree
variable {ι : Type*} {T a b near far : ColorTree ι} {fs gs : TreePath ι} {s : Side} {x y p : ι}
  {c : Color}

/-- The hole is one black node short of what its path asks for. -/
structure Deficit (T : ColorTree ι) (fs : TreePath ι) : Prop where
  calm : T.Calm
  pathCalm : PathCalm fs
  even : ∃ k m, T.Even k ∧ PathEven fs (k + 1) m

/-- The sibling of a hole with a deficit is never empty, and red only below a black node. -/
theorem Deficit.sibling {sib : ColorTree ι} (h : Deficit T (⟨s,p,c,sib⟩ :: fs)) :
    ∃ near x cx far, sib = branch s near x cx far ∧ (cx = .red → c = .black) := by
  obtain ⟨k,m,_,hse,_⟩ := h.even
  obtain ⟨near,x,cx,far,he⟩ := hse.exists_branch s
  refine ⟨near,x,cx,far,he,?_⟩
  rintro rfl
  apply Color.eq_black
  intro hc
  have hb : sib.color = .black := h.pathCalm.2.1 hc
  dsimp only at he
  simp [he] at hb

/-- Case 1: the red sibling goes up. -/
theorem Deficit.redSibling (h : Deficit T (⟨s,p,c,branch s near x .red far⟩ :: fs)) :
    near.color = .black ∧ Deficit T (⟨s,p,.red,near⟩ :: ⟨s,x,.black,far⟩ :: fs) := by
  obtain ⟨near',x',cx,far',he,hblack⟩ := h.sibling
  obtain ⟨hc,⟨hsib,_,_,hpc⟩,k,m,hk,hse,hpe⟩ := h
  have hcb : c = .black := by
    have hcol := congrArg color he
    simp only [color_branch] at hcol
    exact hblack hcol.symm
  obtain ⟨hcol,hnc,hfc⟩ := calm_branch.mp hsib
  obtain ⟨j,hne,hfe,hj⟩ := even_branch.mp hse
  obtain rfl : k + 1 = j := hj
  subst hcb
  refine ⟨(hcol rfl).1,hc,⟨hnc,fun _ => (hcol rfl).1,nofun,hfc,nofun,fits_black fs,hpc⟩,
    k,m,hk,hne,hfe,hpe⟩

/-- Case 4: a red far nephew settles the deficit. -/
theorem Deficit.farRed (h : Deficit T (⟨s,p,c,branch s near x .black far⟩ :: fs))
    (hf : far.color = .red) :
    (plug (branch s (branch s T p .black near) x c far.blacken) fs).RedBlackTree := by
  obtain ⟨hc,⟨hsib,_,hfit,hpc⟩,k,m,hk,hse,hpe⟩ := h
  obtain ⟨_,hnc,hfc⟩ := calm_branch.mp hsib
  obtain ⟨j,hne,hfe,hj⟩ := even_branch.mp hse
  obtain rfl : k = j := by simpa using hj
  refine redBlack_plug.mpr ⟨⟨?_,by rwa [color_branch],hpc⟩,_,m,?_,hpe⟩
  · exact calm_branch.mpr ⟨by simp,calm_branch.mpr ⟨nofun,hc,hnc⟩,hfc.blacken⟩
  · exact even_branch.mpr ⟨k + 1,even_branch.mpr ⟨k,hk,hne,rfl⟩,hfe.blacken hf,rfl⟩

/-- Case 3: so does a red near nephew. -/
theorem Deficit.nearRed
    (h : Deficit T (⟨s,p,c,branch s (branch s a y .red b) x .black far⟩ :: fs)) :
    (plug (branch s (branch s T p .black a) y c (branch s b x .black far)) fs).RedBlackTree := by
  obtain ⟨hc,⟨hsib,_,hfit,hpc⟩,k,m,hk,hse,hpe⟩ := h
  obtain ⟨_,hnc,hfc⟩ := calm_branch.mp hsib
  obtain ⟨_,hac,hbc⟩ := calm_branch.mp hnc
  obtain ⟨j,hne,hfe,hj⟩ := even_branch.mp hse
  obtain rfl : k = j := by simpa using hj
  obtain ⟨i,hae,hbe,hi⟩ := even_branch.mp hne
  obtain rfl : k = i := hi
  refine redBlack_plug.mpr ⟨⟨?_,by rwa [color_branch],hpc⟩,_,m,?_,hpe⟩
  · exact calm_branch.mpr ⟨by simp,calm_branch.mpr ⟨nofun,hc,hac⟩,calm_branch.mpr ⟨nofun,hbc,hfc⟩⟩
  · exact even_branch.mpr ⟨k + 1,even_branch.mpr ⟨k,hk,hae,rfl⟩,even_branch.mpr ⟨k,hbe,hfe,rfl⟩,rfl⟩

/-- Case 2: with black nephews the sibling becomes red, which evens out the children of
the parent one black node short. -/
theorem Deficit.recolor (h : Deficit T (⟨s,p,c,branch s near x .black far⟩ :: fs))
    (hn : near.color = .black) (hf : far.color = .black) :
    (branch s T p .black (branch s near x .red far)).Calm ∧ Fits c fs ∧ PathCalm fs ∧
      ∃ k m, (branch s T p .black (branch s near x .red far)).Even (k + 1) ∧
        PathEven fs (k + 1 + c.weight) m := by
  obtain ⟨hc,⟨hsib,_,hfit,hpc⟩,k,m,hk,hse,hpe⟩ := h
  obtain ⟨_,hnc,hfc⟩ := calm_branch.mp hsib
  obtain ⟨j,hne,hfe,hj⟩ := even_branch.mp hse
  obtain rfl : k = j := by simpa using hj
  refine ⟨calm_branch.mpr ⟨nofun,hc,calm_branch.mpr ⟨fun _ => ⟨hn,hf⟩,hnc,hfc⟩⟩,hfit,hpc,k,m,?_,hpe⟩
  exact even_branch.mpr ⟨k,hk,even_branch.mpr ⟨k,hne,hfe,rfl⟩,rfl⟩

/-- A red parent settles case 2. -/
theorem Deficit.redParent (h : Deficit T (⟨s,p,.red,branch s near x .black far⟩ :: fs))
    (hn : near.color = .black) (hf : far.color = .black) :
    (plug (branch s T p .black (branch s near x .red far)) fs).RedBlackTree := by
  obtain ⟨hc,_,hpc,k,m,he,hpe⟩ := h.recolor hn hf
  exact redBlack_plug.mpr ⟨⟨hc,by simp [fits_black],hpc⟩,k + 1,m,he,hpe⟩

/-- A black one takes the deficit over. -/
theorem Deficit.blackParent (h : Deficit T (⟨s,p,.black,branch s near x .black far⟩ :: fs))
    (hn : near.color = .black) (hf : far.color = .black) :
    Deficit (branch s T p .black (branch s near x .red far)) fs := by
  obtain ⟨hc,_,hpc,k,m,he,hpe⟩ := h.recolor hn hf
  exact ⟨hc,hpc,k + 1,m,he,hpe⟩

theorem Deficit.root (h : Deficit T []) (hT : T.color = .black) : T.RedBlackTree := by
  obtain ⟨hc,_,k,m,he,_⟩ := h
  exact ⟨hT,hc,k,he⟩

/-- A red top settles the deficit by turning black. -/
theorem Deficit.redTop (h : Deficit T fs) (hT : T.color = .red) :
    (plug T.blacken fs).RedBlackTree := by
  obtain ⟨hc,hpc,k,m,he,hpe⟩ := h
  exact redBlack_plug.mpr ⟨⟨hc.blacken,by simp [fits_black],hpc⟩,k + 1,m,he.blacken hT,hpe⟩

/-- Taking the node `y` of colour `c` with at most one child out of a red-black tree
leaves a red-black tree, or a deficit. -/
theorem redBlack_unhook (h : (plug (branch s T y c .leaf) fs).RedBlackTree) :
    (c = .red → (plug T fs).RedBlackTree) ∧ (c = .black → Deficit T fs) := by
  obtain ⟨⟨hc,hfit,hpc⟩,k,m,he,hpe⟩ := redBlack_plug.mp h
  obtain ⟨hcol,hcT,_⟩ := calm_branch.mp hc
  obtain ⟨j,hj,_,rfl⟩ := even_branch.mp he
  constructor
  · rintro rfl
    exact redBlack_plug.mpr ⟨⟨hcT,by simp [(hcol rfl).1,fits_black],hpc⟩,j,m,hj,hpe⟩
  · rintro rfl
    exact ⟨hcT,hpc,j,m,hj,hpe⟩

/-- TreePath conditions do not depend on the identity of a node on the path. -/
theorem pathCalm_rename {sib : ColorTree ι} : PathCalm (gs ++ ⟨s,x,c,sib⟩ :: fs) ↔
    PathCalm (gs ++ ⟨s,y,c,sib⟩ :: fs) := by
  induction gs with
  | nil => exact Iff.rfl
  | cons g gs ih => cases gs <;> simp_all [PathCalm,Fits]

theorem pathEven_rename {sib : ColorTree ι} {k m : ℕ} : PathEven (gs ++ ⟨s,x,c,sib⟩ :: fs) k m ↔
    PathEven (gs ++ ⟨s,y,c,sib⟩ :: fs) k m := by
  induction gs generalizing k with
  | nil => exact Iff.rfl
  | cons g gs ih => simp [PathEven,ih]

theorem fits_rename {sib : ColorTree ι} {c' : Color} : Fits c' (gs ++ ⟨s,x,c,sib⟩ :: fs) ↔
    Fits c' (gs ++ ⟨s,y,c,sib⟩ :: fs) := by
  cases gs <;> exact Iff.rfl

theorem Deficit.rename {sib : ColorTree ι} (h : Deficit T (gs ++ ⟨s,x,c,sib⟩ :: fs)) :
    Deficit T (gs ++ ⟨s,y,c,sib⟩ :: fs) := by
  obtain ⟨hc,hpc,k,m,he,hpe⟩ := h
  exact ⟨hc,pathCalm_rename.mp hpc,k,m,he,pathEven_rename.mp hpe⟩

theorem redBlack_rename {sib : ColorTree ι} (h : (plug T (gs ++ ⟨s,x,c,sib⟩ :: fs)).RedBlackTree) :
    (plug T (gs ++ ⟨s,y,c,sib⟩ :: fs)).RedBlackTree := by
  obtain ⟨⟨hc,hfit,hpc⟩,k,m,he,hpe⟩ := redBlack_plug.mp h
  exact redBlack_plug.mpr ⟨⟨hc,fits_rename.mp hfit,pathCalm_rename.mp hpc⟩,k,m,he,
    pathEven_rename.mp hpe⟩

end Kaplar.RedBlack

namespace Kaplar.Rbtree
open RedBlack RedBlack.ColorTree
variable {ι : Type*} [DecidableEq ι] {t : Rbtree ι} {T a b near far : ColorTree ι} {fs : TreePath ι}
  {s : Side} {x y p : ι} {c cx cy : Color}

section Fixup

theorem removeFixupEnd_spec
    (h : t.Zoom (branch s T p c (branch s near x cx (branch s a y cy b))) fs) :
    ∃ t', removeFixupEnd s t p x (some y) = some t' ∧
      t'.Zoom (branch s (branch s T p .black near) x c (branch s a y .black b)) fs ∧
      t'.cachedMin = t.cachedMin := by
  have hp : (t.node p).color = c := by rw [h.node_branch, RbNode.color_sided]
  have h1 : (t.setColor x c).Zoom (branch s near x c (branch s a y cy b)) _ :=
    (zoom_far.mp h).setColor
  have h2 : ((t.setColor x c).setColor p .black).Zoom (branch s T p .black _) fs :=
    (zoom_far.mpr h1).setColor
  have h3 : (((t.setColor x c).setColor p .black).setColor y .black).Zoom
    (branch s a y .black b) _ := (zoom_far.mp (zoom_far.mp h2)).setColor
  obtain ⟨t',hrot,hz,hm⟩ := rotate_spec (zoom_far.mpr (zoom_far.mpr h3))
  refine ⟨t',?_,hz,hm⟩
  rw [removeFixupEnd, hp]
  exact hrot

/-- The tree is red-black again, with the nodes of `S` in their order. -/
def Balanced (t : Rbtree ι) (S : ColorTree ι) (t' : Rbtree ι) : Prop :=
  ∃ U, t'.Shape U ∧ U.RedBlackTree ∧ U.ids = S.ids ∧ t'.cachedMin = t.cachedMin

/-- The question of the next round, below fewer than `j` frames. -/
structure Moved (t : Rbtree ι) (S : ColorTree ι) (j : ℕ) (t' : Rbtree ι) (node : Option ι) (parent : ι)
    (U : ColorTree ι) (gs : TreePath ι) : Prop where
  zoom : t'.Zoom U gs
  top : U.top = node
  above : above gs = some parent
  black : U.color = .black
  deficit : Deficit U gs
  ids : (plug U gs).ids = S.ids
  cachedMin : t'.cachedMin = t.cachedMin
  shorter : gs.length < j

/-- What one round of the remove fixup leaves. -/
def Settled (t : Rbtree ι) (S : ColorTree ι) (j : ℕ) : Rbtree ι × Option ι × ι ⊕ Rbtree ι → Prop
  | .inr t' => Balanced t S t'
  | .inl (t',node,parent) => ∃ U gs, Moved t S j t' node parent U gs

omit [DecidableEq ι] in
theorem balanced_of_zoom {S : ColorTree ι} {t' : Rbtree ι} (hz : t'.Zoom T fs)
    (hrb : (plug T fs).RedBlackTree) (hi : (plug T fs).ids = S.ids)
    (hm : t'.cachedMin = t.cachedMin) : Balanced t S t' :=
  ⟨plug T fs,shape_plug.mpr hz,hrb,hi,hm⟩

theorem removeFixupBlack_spec (h : t.Zoom T (⟨s,p,c,branch s near x .black far⟩ :: fs))
    (hd : Deficit T (⟨s,p,c,branch s near x .black far⟩ :: fs)) :
    ∃ r, removeFixupBlack s t p x = some r ∧ (c = .red → r.isRight) ∧
      Settled t (plug T (⟨s,p,c,branch s near x .black far⟩ :: fs)) (fs.length + 1) r := by
  have hz := zoom_near.mpr h
  have hzx := zoom_far.mp hz
  have hx := hzx.node_branch
  have hfar := (zoom_far.mp hzx).isRed
  have hnear := (zoom_near.mp hzx).isRed
  have hsfar : (t.node x).child s.flip = far.top := by rw [hx, RbNode.child_flip_sided]
  have hsnear : (t.node x).child s = near.top := by rw [hx, RbNode.child_sided]
  by_cases hf : far.color = .red
  · -- case 4
    obtain ⟨a,y,b,rfl⟩ := exists_branch_of_red hf s
    obtain ⟨t',hend,hz',hm⟩ := removeFixupEnd_spec hz
    rw [top_branch] at hsfar hfar
    have hr : t.isRed (some y) = true := by simpa using hfar
    refine ⟨.inr t',?_,fun _ => rfl,balanced_of_zoom hz' ?_ ?_ hm⟩
    · rw [removeFixupBlack, hsfar]
      simp only [hr, if_true, hend, Option.map_some]
    · have hrb := hd.farRed hf
      rwa [blacken_branch] at hrb
    · apply ids_plug_congr
      cases s <;> simp [Frame.fill,branch,ids]
  have hr : t.isRed far.top = false := by rw [hfar, Color.eq_black hf]; rfl
  by_cases hn : near.color = .red
  · -- case 3
    obtain ⟨a,y,b,rfl⟩ := exists_branch_of_red hn s
    rw [top_branch] at hsnear hnear
    have hrn : t.isRed (some y) = true := by simpa using hnear
    obtain ⟨t1,hrot,hz1,hm1⟩ := rotate_flip_spec hzx
    obtain ⟨t2,hend,hz2,hm2⟩ := removeFixupEnd_spec (zoom_far.mpr hz1)
    refine ⟨.inr t2,?_,fun _ => rfl,balanced_of_zoom hz2 hd.nearRed ?_ (hm2.trans hm1)⟩
    · rw [removeFixupBlack, hsfar, hsnear]
      simp only [hr, hrn, if_true, Option.bind_eq_bind, Option.bind_some, hrot, hend,
        Option.map_some, Bool.false_eq_true, if_false]
    · apply ids_plug_congr
      cases s <;> simp [Frame.fill,branch,ids]
  -- case 2
  have hrn : t.isRed near.top = false := by rw [hnear, Color.eq_black hn]; rfl
  have hx1 : (t.setColor x .red).Zoom (branch s near x .red far) _ := hzx.setColor
  have hz1 := zoom_far.mpr hx1
  have hp := hz1.node_branch
  have hbody : removeFixupBlack s t p x = if c = .red then
      some (.inr ((t.setColor x .red).setColor p .black)) else (above fs).elim
        (some (.inr (t.setColor x .red))) (fun q => some (.inl (t.setColor x .red,some p,q))) := by
    rw [removeFixupBlack, hsfar, hsnear]
    simp only [hr, hrn, Bool.false_eq_true, if_false, hp, RbNode.color_sided, RbNode.parent_sided]
    cases above fs <;> rfl
  have hids : ∀ c', (plug (branch s T p c' (branch s near x .red far)) fs).ids =
      (plug T (⟨s,p,c,branch s near x .black far⟩ :: fs)).ids := by
    intro c'
    apply ids_plug_congr
    cases s <;> simp [Frame.fill,branch,ids]
  rw [hbody]
  cases c with
  | red =>
    refine ⟨_,if_pos rfl,fun _ => rfl,?_⟩
    exact balanced_of_zoom hz1.setColor (hd.redParent (Color.eq_black hn) (Color.eq_black hf))
      (hids _) rfl
  | black =>
    have hd' := hd.blackParent (Color.eq_black hn) (Color.eq_black hf)
    cases fs with
    | nil =>
      refine ⟨_,rfl,by rintro ⟨⟩,balanced_of_zoom hz1 (hd'.root (color_branch ..)) (hids _) rfl⟩
    | cons f fs =>
      refine ⟨_,rfl,by rintro ⟨⟩,_,_,hz1,top_branch ..,rfl,color_branch ..,hd',hids _,rfl,?_⟩
      simp only [List.length_cons]
      omega

theorem removeFixupSide_spec {sib : ColorTree ι} (h : t.Zoom T (⟨s,p,c,sib⟩ :: fs))
    (hd : Deficit T (⟨s,p,c,sib⟩ :: fs)) : ∃ r, removeFixupSide s t p = some r ∧
      Settled t (plug T (⟨s,p,c,sib⟩ :: fs)) (fs.length + 1) r := by
  obtain ⟨near,x,cx,far,rfl,_⟩ := hd.sibling
  have hp := h.node_frame
  have hz := zoom_near.mpr h
  have hx := (zoom_far.mp hz).node_branch
  have hsib : (t.node p).child s.flip = some x := by rw [hp, RbNode.child_flip_sided, top_branch]
  cases cx with
  | black =>
    obtain ⟨r,hr,_,hs⟩ := removeFixupBlack_spec h hd
    refine ⟨r,?_,hs⟩
    rw [removeFixupSide, hsib]
    simp only [Option.bind_eq_bind, Option.bind_some, hx, RbNode.color_sided, reduceCtorEq,
      if_false, hr]
  | red =>
    -- case 1: the round goes on below a black sibling and a red parent
    obtain ⟨hnear,hd'⟩ := hd.redSibling
    have h1 : (t.setColor x .black).Zoom (branch s near x .black far) _ :=
      (zoom_far.mp hz).setColor
    have h2 : ((t.setColor x .black).setColor p .red).Zoom (branch s T p .red _) fs :=
      (zoom_far.mpr h1).setColor
    obtain ⟨t1,hrot,hz1,hm1⟩ := rotate_spec h2
    have hz1 := zoom_near.mp hz1
    obtain ⟨a,y,cy,b,rfl,hcy⟩ := hd'.sibling
    rw [color_branch] at hnear
    subst hnear
    have hp1 := (zoom_near.mp hz1).node_frame
    have hsib1 : (t1.node p).child s.flip = some y := by
      rw [hp1, RbNode.child_flip_sided, top_branch]
    obtain ⟨r,hr,hright,hs⟩ := removeFixupBlack_spec (zoom_near.mp hz1) hd'
    cases r with
    | inl r => cases hright rfl
    | inr t2 =>
      obtain ⟨U,hU,hrb,hi,hm⟩ := hs
      refine ⟨.inr t2,?_,U,hU,hrb,hi.trans ?_,hm.trans hm1⟩
      · rw [removeFixupSide, hsib]
        simp only [Option.bind_eq_bind, Option.bind_some, hx, RbNode.color_sided, if_true, hrot,
          hsib1, hr]
      · rw [plug_cons, plug_cons, plug_cons]
        apply ids_plug_congr
        cases s <;> simp [Frame.fill,branch,ids]

theorem removeFixupBody_spec {node : Option ι} {S : ColorTree ι} (h : t.Zoom T (⟨s,p,c,near⟩ :: fs))
    (hT : T.top = node) (hd : Deficit T (⟨s,p,c,near⟩ :: fs))
    (hS : (plug T (⟨s,p,c,near⟩ :: fs)).ids = S.ids) :
    ∃ r, removeFixupBody (t,node,p) = some r ∧ Settled t S (fs.length + 1) r := by
  obtain ⟨a,x,cx,b,rfl,_⟩ := hd.sibling
  have hp := h.node_frame
  dsimp only at hp
  have hne : T.top ≠ some x := by
    intro he
    exact (zoom_near.mpr h).disjoint.1 (top_mem_ids he) (mem_ids_branch.mpr (.inl rfl))
  obtain ⟨r,hr,hs⟩ := removeFixupSide_spec h hd
  refine ⟨r,?_,?_⟩
  · rw [removeFixupBody, hp]
    subst hT
    cases s with
    | left => simpa [RbNode.sided] using hr
    | right => simpa [RbNode.sided,Ne.symm hne] using hr
  · cases r with
    | inr t' =>
      obtain ⟨U,hU,hrb,hi,hm⟩ := hs
      exact ⟨U,hU,hrb,hi.trans hS,hm⟩
    | inl m =>
      obtain ⟨U,gs,hz,ht,ha,hb,hd,hi,hm,hl⟩ := hs
      exact ⟨U,gs,hz,ht,ha,hb,hd,hi.trans hS,hm,hl⟩

/-- The remove fixup settles every deficit, without ever missing a sibling. -/
theorem rbtRemoveFixup_spec {fuel : ℕ} (h : t.Zoom T fs) (hd : Deficit T fs)
    (hf : fs.length < fuel) :
    ∃ t', rbtRemoveFixup fuel t T.top (above fs) = some t' ∧ Balanced t (plug T fs) t' := by
  by_cases hr : T.color = .red
  · obtain ⟨a,x,b,rfl⟩ := exists_branch_of_red hr .left
    have hrb := hd.redTop hr
    refine ⟨t.setColor x .black,?_,balanced_of_zoom h.setColor hrb ?_ rfl⟩
    · have hred : t.isRed (some x) = true := by simpa using h.isRed
      simp only [rbtRemoveFixup, top_branch, hred, if_true, Option.map_some]
    · exact ids_plug_congr rfl
  have hb := Color.eq_black hr
  have hnr : t.isRed T.top = false := by rw [h.isRed, hb]; rfl
  cases fs with
  | nil =>
    refine ⟨t,?_,balanced_of_zoom h (hd.root hb) rfl rfl⟩
    simp only [rbtRemoveFixup, hnr, Bool.false_eq_true, if_false, above_nil]
  | cons f fs =>
    have hfix : rbtRemoveFixup fuel t T.top (above (f :: fs)) =
        loop removeFixupBody fuel (t,T.top,f.x) := by
      simp only [rbtRemoveFixup, hnr, Bool.false_eq_true, if_false, above_cons]
    rw [hfix]
    refine loop_total (fun k m => ∃ U gs, Moved t (plug T (f :: fs)) (k + 1) m.1 m.2.1 m.2.2 U gs ∧
      gs.length = k) ?_ ⟨T,f :: fs,⟨h,rfl,rfl,hb,hd,rfl,rfl,Nat.lt_succ_self _⟩,rfl⟩ hf
    rintro k ⟨t1,node,parent⟩ ⟨U,gs,⟨hz,ht,ha,_,hd,hi,hm,_⟩,rfl⟩
    dsimp only at hz ht ha hm
    cases gs with
    | nil => cases ha
    | cons g gs =>
      cases ha
      obtain ⟨r,hr,hs⟩ := removeFixupBody_spec hz ht hd hi
      cases r with
      | inr t2 =>
        obtain ⟨V,hV,hrb,hi',hm'⟩ := hs
        exact .inl ⟨t2,hr,V,hV,hrb,hi',hm'.trans hm⟩
      | inl m =>
        obtain ⟨V,hs,hz',ht',ha',hb',hd',hi',hm',hl⟩ := hs
        exact .inr ⟨_,m,hr,⟨V,hs,⟨hz',ht',ha',hb',hd',hi',hm'.trans hm,Nat.lt_succ_self _⟩,rfl⟩,hl⟩

end Fixup

section Unlink
variable {C S l r ry : ColorTree ι} {n : ι} {cn : Color} {gs : TreePath ι} {p q : Option ι}

/-- `C` is `S` without `n`. -/
def Excised (n : ι) (S C : ColorTree ι) : Prop := ∃ A B, S.ids = A ++ n :: B ∧ C.ids = A ++ B

omit [DecidableEq ι] in
theorem Excised.nodup (h : Excised n S C) (hn : (S.ids ++ pathIds fs).Nodup) :
    (n :: (C.ids ++ pathIds fs)).Nodup := by
  obtain ⟨A,B,hS,hC⟩ := h
  rw [hS] at hn
  rw [hC]
  have hp : (A ++ n :: B ++ pathIds fs).Perm (n :: (A ++ B ++ pathIds fs)) := by
    simp only [List.append_assoc, List.cons_append]
    exact List.perm_middle
  exact hp.nodup_iff.mp hn

theorem Excised.erase (h : Excised n S C) (hn : (plug S fs).ids.Nodup) :
    (plug C fs).ids = (plug S fs).ids.erase n := by
  obtain ⟨A,B,hS,hC⟩ := h
  rw [ids_plug, hS] at hn
  rw [ids_plug, ids_plug, hS, hC]
  have hA : n ∉ before fs ++ A := by
    simp only [← List.append_assoc] at hn
    simp only [List.append_assoc (before fs ++ A), List.cons_append] at hn
    intro hm
    exact (List.nodup_append.mp hn).2.2 n hm n (by simp) rfl
  have he := List.erase_append_right (n :: (B ++ after fs)) hA
  simp only [List.erase_cons_head] at he
  simpa [List.append_assoc] using he.symm

/-- The links from above: `C` takes the place of the tree with top `n`. -/
theorem transplant_spec (hl : Linked t.node q C) (hp : LinkedPath t.node (some n) fs)
    (hr : t.root = rootOf (some n) fs) (hn : (t.node n).parent = above fs)
    (hnd : (n :: (C.ids ++ pathIds fs)).Nodup) :
    ((t.setParent? C.top (t.node n).parent).replaceChild n C.top).Zoom C fs ∧
      ((t.setParent? C.top (t.node n).parent).replaceChild n C.top).cachedMin = t.cachedMin := by
  obtain ⟨hnm,hnd⟩ := List.nodup_cons.mp hnd
  obtain ⟨hC,hP,hd⟩ := List.nodup_append.mp hnd
  simp only [List.mem_append, not_or] at hnm
  rw [hn]
  have hn' : ((t.setParent? C.top (above fs)).node n).parent = above fs := by
    rw [node_setParent?_of_notMem hnm.1, hn]
  have hp' : LinkedPath (t.setParent? C.top (above fs)).node (some n) fs :=
    hp.congr (fun y hy => node_setParent?_of_notMem (fun hm => hd y hm y hy rfl))
  obtain ⟨hroot,hpath,hframe,hmin⟩ := replaceChild_spec (p := C.top) hn'
    (by rw [root_setParent?, hr]) hp' (List.nodup_cons.mpr ⟨hnm.2,hP⟩)
  refine ⟨⟨hroot,?_,hpath,hnd⟩,by rw [hmin, cachedMin_setParent?]⟩
  exact (hl.setParent? hC).congr (fun y hy => hframe y (fun hm => hd y hy y hm rfl))

/-- What `unlink` hands over: the tree `C` to put into the place of `n`, and `n` still
linked from above. -/
structure Lifted (t : Rbtree ι) (n : ι) (C : ColorTree ι) (fs : TreePath ι) (u : Unlinked ι) : Prop where
  y : u.y = C.top
  linked : ∃ q, Linked u.t.node q C
  path : LinkedPath u.t.node (some n) fs
  root : u.t.root = t.root
  node : u.t.node n = t.node n
  cachedMin : u.t.cachedMin = t.cachedMin

/-- Hangs the tree with top `p` below `y` on side `s`. -/
def hang (s : Side) (t : Rbtree ι) (y : ι) (p : Option ι) : Rbtree ι :=
  (t.setChild s y p).setParent? p (some y)

/-- The tree `T` now hangs below `y`, and nothing else has changed. -/
structure Hung (s : Side) (t t' : Rbtree ι) (y : ι) (T : ColorTree ι) : Prop where
  linked : Linked t'.node (some y) T
  node : t'.node y = (t.node y).withChild T.top s
  frame : ∀ z, z ∉ T.ids → z ≠ y → t'.node z = t.node z
  root : t'.root = t.root
  cachedMin : t'.cachedMin = t.cachedMin

theorem hang_spec (hl : Linked t.node q T) (hn : T.ids.Nodup) (hy : y ∉ T.ids) :
    Hung s t (hang s t y T.top) y T := by
  refine ⟨?_,?_,?_,by simp [hang],by simp [hang]⟩
  · apply Linked.setParent? (p := q) _ hn
    apply hl.congr
    intro z hz
    have hzy : z ≠ y := fun he => hy (he ▸ hz)
    simp [hzy]
  · rw [hang, node_setParent?_of_notMem hy]
    simp
  · intro z hz hzy
    rw [hang, node_setParent?_of_notMem hz]
    simp [hzy]

/-- Where `y` and the rest lie when `y` is the successor of `n` in the right subtree. -/
structure Apart (n y : ι) (l r : ColorTree ι) (fs : TreePath ι) : Prop where
  left : n ∉ l.ids ∧ y ∉ l.ids ∧ l.ids.Nodup
  right : n ∉ r.ids ∧ y ∉ r.ids ∧ r.ids.Nodup
  path : n ∉ pathIds fs ∧ y ∉ pathIds fs
  disjoint : l.ids.Disjoint r.ids ∧ l.ids.Disjoint (pathIds fs) ∧ r.ids.Disjoint (pathIds fs)
  ne : y ≠ n

omit [DecidableEq ι] in
theorem apart_of_nodup {r' : ColorTree ι} (hr : r'.ids = y :: r.ids)
    (h : ((branch .left l n cn r').ids ++ pathIds fs).Nodup) : Apart n y l r fs := by
  obtain ⟨hb,_,hd⟩ := List.nodup_append.mp h
  obtain ⟨hl,hr',hnl,hnr,hlr⟩ := nodup_branch.mp hb
  rw [hr] at hr' hnr hlr
  obtain ⟨hyr,hrn⟩ := List.nodup_cons.mp hr'
  simp only [List.mem_cons, not_or] at hnr
  have hmem : ∀ z, z ∈ r'.ids ↔ z = y ∨ z ∈ r.ids := by simp [hr]
  have hin : ∀ z, z = n ∨ z ∈ l.ids ∨ z = y ∨ z ∈ r.ids → z ∉ pathIds fs := by
    intro z hz hm
    exact hd z (mem_ids_branch.mpr (by rwa [hmem])) z hm rfl
  refine ⟨⟨hnl,fun hm => hlr hm (by simp),hl⟩,⟨hnr.2,hyr,hrn⟩,⟨hin n (by simp),hin y (by simp)⟩,
    ⟨fun z hz hm => hlr hz (by simp [hm]),fun z hz => hin z (by simp [hz]),
      fun z hz => hin z (by simp [hz])⟩,fun he => hnr.1 he.symm⟩

theorem unlinkChild_spec (h : t.Zoom (branch .left l n cn (branch .left .leaf y cy ry)) fs)
    (hl : l.top = some x) : ∃ u, unlinkChild t n y = some u ∧
      Lifted t n (branch .left l y cn ry) fs u ∧ u.rmColor = cy ∧ u.node = ry.top ∧
        u.parent = some y := by
  have ha : Apart n y l ry fs := apart_of_nodup rfl h.nodup
  have hn := h.node_branch
  have hy := (zoom_far.mp h).node_branch
  obtain ⟨_,hll,hlr⟩ := linked_branch.mp h.tree
  obtain ⟨_,_,hry⟩ := linked_branch.mp hlr
  have hoff : ∀ z, z ≠ y → (t.setColor y cn).node z = t.node z := fun z hz => by simp [hz]
  have hh : Hung .left (t.setColor y cn) (hang .left (t.setColor y cn) y l.top) y l :=
    hang_spec (hll.congr (fun z hz => hoff z (fun he => ha.left.2.1 (he ▸ hz)))) ha.left.2.2
      ha.left.2.1
  have hframe : ∀ z, z ∉ l.ids → z ≠ y →
      (hang .left (t.setColor y cn) y l.top).node z = t.node z :=
    fun z hz hzy => (hh.frame z hz hzy).trans (hoff z hzy)
  refine ⟨⟨hang .left (t.setColor y cn) y l.top,some y,cy,ry.top,some y⟩,?_,
    ⟨(top_branch ..).symm,⟨some n,linked_branch.mpr ⟨?_,hh.linked,?_⟩⟩,?_,hh.root,?_,hh.cachedMin⟩,
    rfl,rfl,rfl⟩
  · simp [unlinkChild,hn,hy,hang,setParent?,hl,ha.ne.symm,RbNode.sided,RbNode.withColor,
      RbNode.withChild]
  · rw [hh.node]
    simp [hy,RbNode.sided,RbNode.withColor,RbNode.withChild]
  · exact hry.congr (fun z hz => hframe z (fun hm => ha.disjoint.1 hm hz)
      (fun he => ha.right.2.1 (he ▸ hz)))
  · have hp := h.path
    rw [top_branch] at hp
    exact hp.congr (fun z hz => hframe z (fun hm => ha.disjoint.2.1 hm hz)
      (fun he => ha.path.2 (he ▸ hz)))
  · exact hframe n ha.left.1 ha.ne.symm

/-- The right child of `y` takes its place below `p`, and `y` another colour. -/
theorem detach_spec {sp : ColorTree ι} {p : ι} {cp : Color} {hs : TreePath ι}
    (hz : t.Zoom (branch .left .leaf y cy ry) (⟨.left,p,cp,sp⟩ :: hs)) (c : Color) :
    let t1 := hang .left (t.setColor y c) p ry.top
    t1.Zoom ry (⟨.left,p,cp,sp⟩ :: hs) ∧ t1.node y = .sided .left c (some p) none ry.top ∧
      (∀ z, z ∉ ry.ids → z ≠ p → z ≠ y → t1.node z = t.node z) ∧ t1.root = t.root ∧
        t1.cachedMin = t.cachedMin := by
  intro t1
  have hy := hz.node_branch
  have hp := hz.node_frame
  dsimp only at hp
  obtain ⟨_,hyr,hyp⟩ := hz.fresh
  obtain ⟨_,_,hrp⟩ := hz.disjoint
  have hndz := hz.nodup
  have hpy : p ≠ y := fun he => hyp (mem_pathIds_cons.mpr (.inl he.symm))
  have hpr : p ∉ ry.ids := fun hm => hrp hm (mem_pathIds_cons.mpr (.inl rfl))
  have hoff : ∀ z, z ≠ y → (t.setColor y c).node z = t.node z := fun z hz => by simp [hz]
  obtain ⟨_,_,hlry⟩ := linked_branch.mp hz.tree
  have h1 : Hung .left (t.setColor y c) t1 p ry :=
    hang_spec (hlry.congr (fun z hm => hoff z (fun he => hyr (he ▸ hm))))
      (nodup_branch.mp (List.nodup_append.mp hndz).1).2.1 hpr
  have hf1 : ∀ z, z ∉ ry.ids → z ≠ p → z ≠ y → t1.node z = t.node z :=
    fun z hz hzp hzy => (h1.frame z hz hzp).trans (hoff z hzy)
  have hy1 : t1.node y = .sided .left c (some p) none ry.top := by
    rw [h1.frame y hyr hpy.symm]
    simp [hy,top]
  obtain ⟨_,hsp,hps⟩ := (zoom_fill.mpr hz).fresh
  have hall : ∀ z ∈ pathIds (⟨.left,p,cp,sp⟩ :: hs), z ≠ p → t1.node z = t.node z := by
    intro z hm hzp
    exact hf1 z (fun hzr => hrp hzr hm) hzp (fun he => hyp (he ▸ hm))
  refine ⟨⟨h1.root.trans hz.root,h1.linked,⟨?_,?_,?_⟩,?_⟩,hy1,hf1,h1.root,h1.cachedMin⟩
  · rw [h1.node, hoff p hpy, hp, RbNode.withChild_sided]
  · refine hz.path.2.1.congr (fun z hm => hall z ?_ (fun he => hsp (he ▸ hm)))
    exact mem_pathIds_cons.mpr (.inr (.inl hm))
  · refine hz.path.2.2.congr (fun z hm => hall z ?_ (fun he => hps (he ▸ hm)))
    exact mem_pathIds_cons.mpr (.inr (.inr hm))
  · exact (List.nodup_cons.mp hndz).2

theorem unlinkDeep_spec {sp : ColorTree ι} {p : ι} {cp : Color}
    (h : t.Zoom (branch .left l n cn
      (plug (branch .left .leaf y cy ry) (⟨.left,p,cp,sp⟩ :: gs))) fs)
    (hr : (plug (branch .left .leaf y cy ry) (⟨.left,p,cp,sp⟩ :: gs)).ids =
      y :: (plug ry (⟨.left,p,cp,sp⟩ :: gs)).ids) (hl : l.top = some x) :
    ∃ u, unlinkDeep t n y = some u ∧
      Lifted t n (branch .left l y cn (plug ry (⟨.left,p,cp,sp⟩ :: gs))) fs u ∧ u.rmColor = cy ∧
        u.node = ry.top ∧ u.parent = some p := by
  have ha := apart_of_nodup hr h.nodup
  generalize hr' : plug ry (⟨.left,p,cp,sp⟩ :: gs) = r' at ha ⊢
  have hn := h.node_branch
  -- the same tree looked at from `y`
  have hz : t.Zoom (branch .left .leaf y cy ry)
      (⟨.left,p,cp,sp⟩ :: (gs ++ ⟨.right,n,cn,l⟩ :: fs)) := zoom_append.mp (zoom_far.mp h)
  have hy := hz.node_branch
  obtain ⟨_,_,hyp⟩ := hz.fresh
  have hpy : p ≠ y := fun he => hyp (mem_pathIds_cons.mpr (.inl he.symm))
  have hpr' : p ∈ r'.ids := by
    rw [← hr', mem_ids_plug]
    exact .inr (mem_pathIds_cons.mpr (.inl rfl))
  have hnp : n ≠ p := fun he => ha.right.1 (he ▸ hpr')
  have hry : ∀ z ∈ ry.ids, z ∈ r'.ids := by
    intro z hm
    rw [← hr', mem_ids_plug]
    exact .inl hm
  -- `y` leaves its place
  obtain ⟨hz1,hy1,hf1,hroot1,hmin1⟩ := detach_spec hz cn
  generalize ht1 : hang .left (t.setColor y cn) p ry.top = t1 at hz1 hy1 hf1 hroot1 hmin1
  have hz1' : t1.Zoom (branch .left l n cn r') fs := by
    rw [← hr']
    exact zoom_far.mpr (zoom_append.mpr hz1)
  obtain ⟨hn1,hl1,hr1⟩ := linked_branch.mp hz1'.tree
  -- and takes the children of `n`
  have h2 : Hung .left t1 (hang .left t1 y l.top) y l := hang_spec hl1 ha.left.2.2 ha.left.2.1
  generalize ht2 : hang .left t1 y l.top = t2 at h2
  have h3 : Hung .right t2 (hang .right t2 y r'.top) y r' := by
    refine hang_spec (hr1.congr (fun z hm => h2.frame z ?_ ?_)) ha.right.2.2 ha.right.2.1
    · exact fun hl => ha.disjoint.1 hl hm
    · exact fun he => ha.right.2.1 (he ▸ hm)
  generalize ht3 : hang .right t2 y r'.top = t3 at h3
  have hf3 : ∀ z, z ∉ l.ids → z ∉ r'.ids → z ≠ y → t3.node z = t1.node z :=
    fun z hzl hzr hzy => (h3.frame z hzr hzy).trans (h2.frame z hzl hzy)
  have hw : ∃ w, r'.top = some w := by
    rw [← hr', top_plug]
    obtain ⟨w,_,hw⟩ := exists_rootOf_cons (p := ry.top) (f := ⟨.left,p,cp,sp⟩)
    exact ⟨w,hw⟩
  obtain ⟨w,hw⟩ := hw
  refine ⟨⟨t3,some y,cy,ry.top,some p⟩,?_,
    ⟨(top_branch ..).symm,⟨some p,linked_branch.mpr ⟨?_,?_,h3.linked⟩⟩,?_,?_,?_,?_⟩,rfl,rfl,rfl⟩
  · have hc : (t.node n).color = cn := by rw [hn, RbNode.color_sided]
    have hy0 : (t.setColor y cn).node y = .sided .left cn (some p) none ry.top := by
      simp [hy,top]
    have hya : ((t.setColor y cn).setChild .left p ry.top).node y =
        .sided .left cn (some p) none ry.top := by simp [hpy.symm,hy,top]
    have hyb : ((t1.setChild .left y l.top).node y).left = some x := by
      simp [hl,RbNode.withChild]
    have hn2 : (t2.node n).right = some w := by
      rw [h2.frame n ha.left.1 ha.ne.symm, hn1, hw]
      rfl
    have hyc : ((t2.setChild .right y (some w)).node y).right = some w := by
      simp [RbNode.withChild]
    have hl1 : (t1.node n).left = l.top := by rw [hn1]; rfl
    have e1 : ((t.setColor y cn).setChild .left p ry.top).setParent? ry.top (some p) = t1 := ht1
    have e2 : (t1.setChild .left y l.top).setParent x (some y) = t2 := by
      rw [← ht2, hang, hl]
      rfl
    have e3 : (t2.setChild .right y (some w)).setParent w (some y) = t3 := by
      rw [← ht3, hang, hw]
      rfl
    have hyl : ∀ z : RbNode ι, z = .sided .left cn (some p) none ry.top →
        z.right = ry.top ∧ z.parent = some p := by
      rintro z rfl
      exact ⟨rfl,rfl⟩
    rw [unlinkDeep, hc]
    simp only [(hyl _ hy0).1, (hyl _ hy0).2, (hyl _ hya).1, (hyl _ hya).2, Option.bind_eq_bind,
      Option.bind_some, e1, hl1, hyb, e2, hn2, hyc, e3, hy, RbNode.color_sided, Option.pure_def]
  · rw [h3.node, h2.node, hy1]
    rfl
  · refine h2.linked.congr (fun z hm => h3.frame z (fun hr => ha.disjoint.1 hm hr) ?_)
    exact fun he => ha.left.2.1 (he ▸ hm)
  · have hp := hz1'.path
    rw [top_branch] at hp
    exact hp.congr (fun z hm => hf3 z (fun hl => ha.disjoint.2.1 hl hm)
      (fun hr => ha.disjoint.2.2 hr hm) (fun he => ha.path.2 (he ▸ hm)))
  · exact h3.root.trans (h2.root.trans hroot1)
  · exact (hf3 n ha.left.1 ha.right.1 ha.ne.symm).trans
      (hf1 n (fun hm => ha.right.1 (hry n hm)) hnp ha.ne.symm)
  · exact h3.cachedMin.trans (h2.cachedMin.trans hmin1)

/-- What is left of `S` without `n`: the tree `C`, with a focus `Z` below which a node of
colour `u.rmColor` is gone. -/
structure Gap (n : ι) (S : ColorTree ι) (fs : TreePath ι) (C Z : ColorTree ι) (hs : TreePath ι)
    (u : Unlinked ι) : Prop where
  excised : Excised n S C
  focus : plug C fs = plug Z hs
  node : u.node = Z.top
  parent : u.parent = above hs
  balance : (plug S fs).RedBlackTree →
    (u.rmColor = .red → (plug Z hs).RedBlackTree) ∧ (u.rmColor = .black → Deficit Z hs)

omit [DecidableEq ι] in
/-- At most one child: it takes the place of `n`. -/
theorem gap_of_leaf (h : t.Zoom (branch s T n cn .leaf) fs) :
    Lifted t n T fs ⟨t,T.top,cn,T.top,above fs⟩ ∧
      Gap n (branch s T n cn .leaf) fs T T fs ⟨t,T.top,cn,T.top,above fs⟩ := by
  have hp := h.path
  rw [top_branch] at hp
  refine ⟨⟨rfl,⟨some n,(linked_branch.mp h.tree).2.1⟩,hp,rfl,rfl,rfl⟩,⟨?_,rfl,rfl,rfl,
    redBlack_unhook⟩⟩
  cases s with
  | left => exact ⟨T.ids,[],rfl,(List.append_nil _).symm⟩
  | right => exact ⟨[],T.ids,rfl,rfl⟩

theorem unlink_spec {fuel : ℕ} (h : t.Zoom (branch .left l n cn r) fs)
    (hf : r.ids.length < fuel) : ∃ u C Z hs, unlink fuel t n = some u ∧ Lifted t n C fs u ∧
      Gap n (branch .left l n cn r) fs C Z hs u := by
  have hn := h.node_branch
  have hleft : (t.node n).left = l.top := by rw [hn]; rfl
  have hright : (t.node n).right = r.top := by rw [hn]; rfl
  have hpar : (t.node n).parent = above fs := by rw [hn, RbNode.parent_sided]
  have hcol : (t.node n).color = cn := by rw [hn, RbNode.color_sided]
  cases hl : l.top with
  | none =>
    rw [eq_leaf_of_top hl] at h ⊢
    have hg := gap_of_leaf (s := .right) h
    refine ⟨⟨t,r.top,cn,r.top,above fs⟩,r,r,fs,?_,hg⟩
    rw [unlink, hleft, hright, hl, hpar, hcol]
  | some x =>
    cases hr : r.top with
    | none =>
      rw [eq_leaf_of_top hr] at h ⊢
      have hg := gap_of_leaf (s := .left) h
      rw [hl] at hg
      refine ⟨⟨t,some x,cn,some x,above fs⟩,l,l,fs,?_,hg⟩
      rw [unlink, hleft, hright, hl, hr, hpar, hcol]
    | some w =>
      obtain ⟨y',ho,hy'⟩ := outermost_spec (s := .left) (zoom_far.mp h) hr hf
      obtain ⟨gs,y,cy,ry,rfl,hgs⟩ := exists_leftmost hr
      have hids : (plug (branch .left .leaf y cy ry) gs).ids = y :: (plug ry gs).ids := by
        rw [ids_plug, ids_plug, hgs]
        rfl
      obtain rfl : y' = y := by
        simp only [toward, Side.flip_left, hids, List.head?_cons, Option.some.injEq] at hy'
        exact hy'.symm
      have hbal : (plug (branch .left l n cn (plug (branch .left .leaf y' cy ry) gs)) fs).RedBlackTree →
          (cy = .red → (plug ry (gs ++ ⟨.right,y',cn,l⟩ :: fs)).RedBlackTree) ∧
            (cy = .black → Deficit ry (gs ++ ⟨.right,y',cn,l⟩ :: fs)) := by
        intro hrb
        have hrb' :
            (plug (branch .right ry y' cy .leaf) (gs ++ ⟨.right,n,cn,l⟩ :: fs)).RedBlackTree := by
          rw [plug_append]
          exact hrb
        obtain ⟨hred,hblack⟩ := redBlack_unhook hrb'
        exact ⟨fun hc => redBlack_rename (hred hc),fun hc => (hblack hc).rename⟩
      have hexc : Excised n (branch .left l n cn (plug (branch .left .leaf y' cy ry) gs))
          (branch .left l y' cn (plug ry gs)) :=
        ⟨l.ids,y' :: (plug ry gs).ids,by rw [← hids]; rfl,rfl⟩
      have hunlink : unlink fuel t n =
          if y' = w then unlinkChild t n y' else unlinkDeep t n y' := by
        rw [unlink, hleft, hright, hl, hr]
        simp only [ho, Option.bind_eq_bind, Option.bind_some]
      rw [hunlink]
      cases gs with
      | nil =>
        cases hr
        obtain ⟨u,hu,hlift,hcu,hnode,hup⟩ := unlinkChild_spec h hl
        refine ⟨u,_,ry,⟨.right,w,cn,l⟩ :: fs,by rw [if_pos rfl, hu],hlift,hexc,rfl,hnode,hup,?_⟩
        rw [hcu]
        exact hbal
      | cons g gs =>
        obtain ⟨side,p,cp,sp⟩ := g
        obtain rfl : side = .left := by
          cases side
          · rfl
          · simp [before,Frame.before] at hgs
        have hyw : y' ≠ w := by
          have hnd := nodup_branch.mp (List.nodup_append.mp h.nodup).1
          rw [hids] at hnd
          obtain ⟨w',hw',hroot⟩ := exists_rootOf_cons (p := some y') (f := ⟨.left,p,cp,sp⟩)
          rw [top_plug] at hr
          obtain rfl : w' = w := Option.some.inj (hroot.symm.trans hr)
          rintro rfl
          exact (List.nodup_cons.mp hnd.2.1).1 (mem_ids_plug.mpr (.inr hw'))
        obtain ⟨u,hu,hlift,hcu,hnode,hup⟩ := unlinkDeep_spec h hids hl
        refine ⟨u,_,ry,⟨.left,p,cp,sp⟩ :: (gs ++ ⟨.right,y',cn,l⟩ :: fs),by rw [if_neg hyw, hu],hlift,
          hexc,?_,hnode,hup,?_⟩
        · exact (plug_append ry (⟨.left,p,cp,sp⟩ :: gs) (⟨.right,y',cn,l⟩ :: fs)).symm
        · rw [hcu]
          exact hbal

end Unlink

section Remove
variable {n : ι}

omit [DecidableEq ι] in
theorem Zoom.withMin (h : t.Zoom T fs) (m : Option ι) :
    ({ t with cachedMin := m } : Rbtree ι).Zoom T fs :=
  ⟨h.root,h.tree,h.path,h.nodup⟩

/-- If the cached minimum was the first node, it is the first of the others afterwards. -/
theorem dropCachedMin_spec {fuel : ℕ} {l r : ColorTree ι} (h : t.Zoom (branch .left l n c r) fs)
    (hf : (plug (branch .left l n c r) fs).ids.length < fuel) :
    ∃ m, dropCachedMin fuel t n = some { t with cachedMin := m } ∧
      (t.cachedMin = (plug (branch .left l n c r) fs).ids.head? →
        m = ((plug (branch .left l n c r) fs).ids.erase n).head?) := by
  have hids : (plug (branch .left l n c r) fs).ids =
      (before fs ++ l.ids) ++ n :: (r.ids ++ after fs) := by
    simp [ids_plug,branch,ids]
  have hnd := (shape_plug.mpr h).nodup
  by_cases hm : t.cachedMin = some n
  · refine ⟨(r.ids ++ after fs).head?,?_,?_⟩
    · have hnext : rbnodeNext fuel t (some n) = some (r.ids ++ after fs).head? :=
        neighbor_spec (s := .left) h hf
      rw [dropCachedMin, if_pos hm, hnext]
      rfl
    · intro hhead
      rw [hids] at hnd hhead ⊢
      cases hA : before fs ++ l.ids with
      | nil => simp
      | cons z A =>
        rw [hA] at hnd hhead
        obtain rfl : n = z := by simpa [hm] using hhead
        simp at hnd
  · refine ⟨t.cachedMin,by rw [dropCachedMin, if_neg hm],?_⟩
    intro hhead
    cases hI : (plug (branch .left l n c r) fs).ids with
    | nil => simp [hI] at hids
    | cons z A =>
      rw [hI] at hhead
      have hz : z ≠ n := by
        rintro rfl
        exact hm hhead
      rw [hhead, List.erase_cons_tail (by simpa using hz)]
      rfl

section Mono
variable {fuel fuel' : ℕ} {t' : Rbtree ι}

theorem dropCachedMin_mono (h : dropCachedMin fuel t n = some t') (hf : fuel ≤ fuel') :
    dropCachedMin fuel' t n = some t' := by
  simp only [dropCachedMin] at h ⊢
  split at h
  case isTrue hm =>
    obtain ⟨m,hn,rfl⟩ := Option.map_eq_some_iff.mp h
    rw [if_pos hm]
    exact Option.map_eq_some_iff.mpr ⟨m,neighbor_mono hn hf,rfl⟩
  case isFalse hm =>
    rw [if_neg hm]
    exact h

theorem unlink_mono {u : Unlinked ι} (h : unlink fuel t n = some u) (hf : fuel ≤ fuel') :
    unlink fuel' t n = some u := by
  simp only [unlink] at h ⊢
  split at h
  · obtain ⟨y,hy,hu⟩ := Option.bind_eq_some_iff.mp h
    exact Option.bind_eq_some_iff.mpr ⟨y,loop_mono hy hf,hu⟩
  · exact h
  · exact h

theorem rbtRemoveFixup_mono {node parent : Option ι} (h : rbtRemoveFixup fuel t node parent = some t')
    (hf : fuel ≤ fuel') : rbtRemoveFixup fuel' t node parent = some t' := by
  simp only [rbtRemoveFixup] at h ⊢
  split at h
  case isTrue hr =>
    rw [if_pos hr]
    exact h
  case isFalse hr =>
    rw [if_neg hr]
    cases parent with
    | none => exact h
    | some p => exact loop_mono h hf

theorem rbtRemove_mono (h : rbtRemove fuel t n = some t') (hf : fuel ≤ fuel') :
    rbtRemove fuel' t n = some t' := by
  simp only [rbtRemove, Option.bind_eq_bind, Option.bind_eq_some_iff] at h ⊢
  obtain ⟨t1,h1,u,h2,h3⟩ := h
  refine ⟨t1,dropCachedMin_mono h1 hf,u,unlink_mono h2 hf,?_⟩
  split at h3
  case isTrue hc =>
    rw [if_pos hc]
    exact rbtRemoveFixup_mono h3 hf
  case isFalse hc =>
    rw [if_neg hc]
    exact h3

end Mono

section Lifted
variable {l r C Z : ColorTree ι} {cn : Color} {hs : TreePath ι} {u : Unlinked ι}

/-- What was unlinked is put together again without `n`. -/
theorem Lifted.zoom (hl : Lifted t n C fs u) (hz : t.Zoom (branch .left l n cn r) fs)
    (hg : Gap n (branch .left l n cn r) fs C Z hs u) :
    ((u.t.setParent? C.top (u.t.node n).parent).replaceChild n C.top).Zoom Z hs ∧
      ((u.t.setParent? C.top (u.t.node n).parent).replaceChild n C.top).cachedMin = t.cachedMin := by
  obtain ⟨q,hC⟩ := hl.linked
  have hroot : u.t.root = rootOf (some n) fs := by
    rw [hl.root]
    exact hz.root
  have hpar : (u.t.node n).parent = above fs := by
    rw [hl.node]
    exact (congrArg RbNode.parent hz.node_branch).trans RbNode.parent_sided
  obtain ⟨hzC,hmC⟩ := transplant_spec hC hl.path hroot hpar (hg.excised.nodup hz.nodup)
  refine ⟨?_,hmC.trans hl.cachedMin⟩
  rw [← shape_plug, ← hg.focus]
  exact shape_plug.mpr hzC

/-- A removal whose parts are known. -/
theorem rbtRemove_eq {fuel : ℕ} {t₁ : Rbtree ι} (hdrop : dropCachedMin fuel t n = some t₁)
    (hu : unlink fuel t₁ n = some u) (hy : u.y = C.top) (hnode : u.node = Z.top)
    (hpar : u.parent = above hs) : rbtRemove fuel t n = if u.rmColor = .black then
      rbtRemoveFixup fuel ((u.t.setParent? C.top (u.t.node n).parent).replaceChild n C.top) Z.top
        (above hs)
      else some ((u.t.setParent? C.top (u.t.node n).parent).replaceChild n C.top) := by
  simp only [rbtRemove, hdrop, hu, hy, hnode, hpar, Option.bind_eq_bind, Option.bind_some,
    Option.pure_def]

end Lifted

/-- A removal from a red-black tree leaves a red-black tree of the other nodes. -/
theorem rbtRemove_spec {fuel : ℕ} (h : t.Shape T) (hrb : T.RedBlackTree) (hn : n ∈ T.ids)
    (hf : T.ids.length < fuel) : ∃ t', rbtRemove fuel t n = some t' ∧ ∃ U, t'.Shape U ∧
      U.RedBlackTree ∧ U.ids = T.ids.erase n ∧
      (t.cachedMin = T.ids.head? → t'.cachedMin = U.ids.head?) := by
  obtain ⟨l,cn,r,fs,rfl⟩ := exists_focus hn
  have hz := shape_plug.mp h
  obtain ⟨m,hdrop,hmin⟩ := dropCachedMin_spec hz hf
  have hlen : r.ids.length < fuel := by
    simp only [ids_plug, branch, ids, List.length_append, List.length_cons] at hf
    omega
  obtain ⟨u,C,Z,hs,hu,hlift,hgap⟩ := unlink_spec (hz.withMin m) hlen
  obtain ⟨hzZ,hminC⟩ := hlift.zoom (hz.withMin m) hgap
  have hids : (plug Z hs).ids = (plug (branch .left l n cn r) fs).ids.erase n := by
    rw [← hgap.focus]
    exact hgap.excised.erase h.nodup
  rw [rbtRemove_eq hdrop hu hlift.y hgap.node hgap.parent]
  obtain ⟨hred,hblack⟩ := hgap.balance hrb
  by_cases hc : u.rmColor = .black
  · have hfuel : hs.length < fuel := by
      have hle := length_le_pathIds hs
      have he := congrArg List.length hids
      rw [List.length_erase_of_mem hn, ids_plug] at he
      simp only [pathIds, List.length_append] at he hle
      omega
    obtain ⟨t',hfix,U,hU,hUrb,hUi,hUm⟩ := rbtRemoveFixup_spec hzZ (hblack hc) hfuel
    refine ⟨t',by rw [if_pos hc, hfix],U,hU,hUrb,hUi.trans hids,?_⟩
    intro hhead
    rw [hUm, hminC, hUi, hids]
    exact hmin hhead
  · have hc' := (Color.eq_red_or_black u.rmColor).resolve_right hc
    refine ⟨_,if_neg hc,plug Z hs,shape_plug.mpr hzZ,hred hc',hids,?_⟩
    intro hhead
    rw [hminC, hids]
    exact hmin hhead

end Remove

end Kaplar.Rbtree
