import Kaplar.Tree.RbtreeShape

/-! # What insertion does to the tree

The search walks a path down to a free hole and the fixup walks the same path back
up, two frames at a time. Both are followed on the represented tree. The fixup does
not look at the colour of the current node again after a rotation has made it black:
`NoBlackInner` says that it meets no black inner grandchild on its way.
-/
namespace Kaplar.RedBlack
open ColorTree
variable {ι : Type*}

/-- The hole the search for `n` ends in, unless it meets an equal node. -/
def descend (compare : ι → ι → ℤ) (n : ι) : ColorTree ι → TreePath ι → Option (TreePath ι)
  | .leaf, fs => some fs
  | .node l x c r, fs =>
    if compare n x = 0 then none
    else if compare n x < 0 then descend compare n l (⟨.left,x,c,r⟩ :: fs)
    else descend compare n r (⟨.right,x,c,l⟩ :: fs)

/-- The tree the insert fixup leaves when the current node is the top of the focus. -/
def fixup : ColorTree ι → TreePath ι → ColorTree ι
  | .node l x c r, p :: g :: fs =>
    if p.c = .black then plug (.node l x c r) (p :: g :: fs)
    else if g.sib.color = .red then
      fixup (branch g.side (branch p.side (.node l x c r) p.x .black p.sib) g.x .red
        g.sib.blacken) fs
    else if p.side = g.side then
      fixup (branch g.side (.node l x c r) p.x .black (branch g.side p.sib g.x .red g.sib)) fs
    else match g.side with
      | .left => fixup (.node (.node p.sib p.x p.c l) x .black (.node r g.x .red g.sib)) fs
      | .right => fixup (.node (.node g.sib g.x .red l) x .black (.node r p.x p.c p.sib)) fs
  | T, fs => plug T fs

/-- On the way up the fixup never turns a black node from an inner to an outer place;
`b` tells whether the current node is red. -/
def NoBlackInner (b : Bool) : TreePath ι → Prop
  | p :: g :: fs =>
    p.c = .red → if g.sib.color = .red then NoBlackInner true fs
      else (p.side ≠ g.side → b = true) ∧ NoBlackInner false fs
  | _ => True

def NoBlackInner.decide (b : Bool) : (fs : TreePath ι) → Decidable (NoBlackInner b fs)
  | [] => isTrue trivial
  | [_] => isTrue trivial
  | p :: g :: fs =>
    have := NoBlackInner.decide true fs
    have := NoBlackInner.decide false fs
    inferInstanceAs (Decidable (p.c = .red → if g.sib.color = .red then NoBlackInner true fs
      else (p.side ≠ g.side → b = true) ∧ NoBlackInner false fs))

instance (b : Bool) : DecidablePred (@NoBlackInner ι b) := NoBlackInner.decide b

/-- The last frame of a path is the root of the tree. -/
def RootBlack : TreePath ι → Prop
  | [] => True
  | [f] => f.c = .black
  | _ :: f :: fs => RootBlack (f :: fs)

section Fixup
variable {T a b : ColorTree ι} {p g : Frame ι} {fs : TreePath ι} {s : Side} {x : ι} {c : Color}

theorem fixup_nil : fixup T [] = T := by cases T <;> rfl

theorem fixup_of_black (h : p.c = .black) : fixup T (p :: fs) = plug T (p :: fs) := by
  cases T with
  | leaf => rfl
  | node l x c r => cases fs with
    | nil => rfl
    | cons g fs => simp only [fixup, h, if_true]

theorem fixup_recolor {side : Side} {y g : ι} {cg : Color} {sib gsib : ColorTree ι}
    (hx : T.top = some x) (hg : gsib.color = .red) :
    fixup T (⟨side,y,.red,sib⟩ :: ⟨s,g,cg,gsib⟩ :: fs) =
      fixup (branch s (branch side T y .black sib) g .red gsib.blacken) fs := by
  cases T with
  | leaf => cases hx
  | node l z c r => simp [fixup,hg]

theorem fixup_outer {y g : ι} {cg : Color} {sib gsib : ColorTree ι}
    (hx : T.top = some x) (hg : gsib.color = .black) :
    fixup T (⟨s,y,.red,sib⟩ :: ⟨s,g,cg,gsib⟩ :: fs) =
      fixup (branch s T y .black (branch s sib g .red gsib)) fs := by
  cases T with
  | leaf => cases hx
  | node l z c r => simp [fixup,hg]

theorem fixup_inner {y g : ι} {cg : Color} {sib gsib : ColorTree ι} (hg : gsib.color = .black) :
    fixup (branch s a x c b) (⟨s.flip,y,.red,sib⟩ :: ⟨s,g,cg,gsib⟩ :: fs) =
      fixup (branch s (branch s sib y .red a) x .black (branch s b g .red gsib)) fs := by
  cases s <;> simp [fixup,hg,branch]

theorem rootBlack_plug (h : (plug T (p :: fs)).color = .black) : RootBlack (p :: fs) := by
  induction fs generalizing T p with
  | nil => simpa [RootBlack,Frame.fill] using h
  | cons g fs ih => exact ih h

theorem RootBlack.tail (h : RootBlack (p :: fs)) : RootBlack fs := by
  cases fs with
  | nil => trivial
  | cons g fs => exact h

theorem descend_plug {compare : ι → ι → ℤ} {n : ι} {gs : TreePath ι}
    (h : descend compare n T fs = some gs) : plug .leaf gs = plug T fs := by
  induction T generalizing fs with
  | leaf =>
    cases h
    rfl
  | node l x c r ihl ihr =>
    simp only [descend] at h
    split at h
    · cases h
    · split at h
      · exact ihl h
      · exact ihr h

/-- The fixup keeps the in-order sequence. -/
theorem ids_fixup : (fixup T fs).ids = (plug T fs).ids := by
  fun_induction fixup T fs with
  | case1 => rfl
  | case2 l x c r p g fs _ _ ih =>
    rw [ih]
    apply ids_plug_congr
    exact ids_branch_congr (ids_branch_congr rfl rfl) (ids_blacken _)
  | case3 l x c r p g fs _ _ hs ih =>
    rw [ih]
    apply ids_plug_congr
    rw [Frame.fill, Frame.fill, hs]
    exact ids_rotate.symm
  | case4 l x c r p g fs _ _ hs hg ih =>
    have hp : p.side = .right := by simpa [hg] using Side.eq_flip hs
    rw [ih]
    apply ids_plug_congr
    simp [Frame.fill,branch,hg,hp,ids]
  | case5 l x c r p g fs _ _ hs hg ih =>
    have hp : p.side = .left := by simpa [hg] using Side.eq_flip hs
    rw [ih]
    apply ids_plug_congr
    simp [Frame.fill,branch,hg,hp,ids]
  | case6 => rfl

/-- A red frame has a black frame above it and a black sibling. -/
theorem red_frame {k m : ℕ} (hp : p.c = .red) (he : PathEven (p :: g :: fs) k m)
    (hc : PathCalm (p :: g :: fs)) : g.c = .black ∧ (p.sib.Even k ∧ p.sib.Calm ∧
      p.sib.color = .black) ∧ g.sib.Even k ∧ g.sib.Calm ∧ PathEven fs (k + 1) m ∧ PathCalm fs := by
  obtain ⟨hse,hge,he⟩ := he
  obtain ⟨hsc,hps,hfp,hgc,_,_,hc⟩ := hc
  have hg : g.c = .black := by
    apply Color.eq_black
    intro hr
    have hb := hfp hr
    simp [hp] at hb
  simp only [hp, hg, Color.weight_red, Color.weight_black, Nat.add_zero] at hge he
  exact ⟨hg,⟨hse,hsc,hps hp⟩,hge,hgc,he,hc⟩

/-- Without a black inner grandchild on the way the fixup ends in a red-black tree. -/
theorem redBlack_fixup {k m : ℕ} (hc : T.Calm) (he : T.Even k) (hpe : PathEven fs k m)
    (hpc : PathCalm fs) (hb : NoBlackInner (T.color == .red) fs) :
    (fixup T fs).blacken.RedBlackTree := by
  fun_induction fixup T fs generalizing k with
  | case1 l x c r p g fs hp =>
    have hrb : (plug (.node l x c r) (p :: g :: fs)).RedBlackTree :=
      redBlack_plug.mpr ⟨⟨hc,by simp [Fits,hp],hpc⟩,k,m,he,hpe⟩
    rw [blacken_of_black hrb.root]
    exact hrb
  | case2 l x c r p g fs hp hg ih =>
    have hp := (Color.eq_red_or_black p.c).resolve_right hp
    obtain ⟨_,⟨hse,hsc,_⟩,hge,hgc,hpe,hpc⟩ := red_frame hp hpe hpc
    simp only [NoBlackInner, hp, hg, forall_const, if_true] at hb
    refine ih ?_ ?_ hpe hpc (by simpa using hb)
    · exact calm_branch.mpr ⟨by simp,calm_branch.mpr ⟨by rintro ⟨⟩,hc,hsc⟩,hgc.blacken⟩
    · exact even_branch.mpr ⟨k + 1,even_branch.mpr ⟨k,he,hse,rfl⟩,hge.blacken hg,rfl⟩
  | case3 l x c r p g fs hp hg hs ih =>
    have hp := (Color.eq_red_or_black p.c).resolve_right hp
    obtain ⟨_,⟨hse,hsc,hsb⟩,hge,hgc,hpe,hpc⟩ := red_frame hp hpe hpc
    simp only [NoBlackInner, hp, hg, forall_const, if_false] at hb
    refine ih ?_ ?_ hpe hpc (by rw [color_branch]; exact hb.2)
    · exact calm_branch.mpr ⟨by rintro ⟨⟩,hc,calm_branch.mpr ⟨fun _ => ⟨hsb,Color.eq_black hg⟩,hsc,hgc⟩⟩
    · exact even_branch.mpr ⟨k,he,even_branch.mpr ⟨k,hse,hge,rfl⟩,rfl⟩
  | case4 l x c r p g fs hp hg hs hgs ih =>
    have hp := (Color.eq_red_or_black p.c).resolve_right hp
    obtain ⟨_,⟨hse,hsc,hsb⟩,hge,hgc,hpe,hpc⟩ := red_frame hp hpe hpc
    simp only [NoBlackInner, hp, hg, forall_const, if_false] at hb
    obtain rfl : c = .red := by simpa [color] using hb.1 hs
    obtain ⟨hlr,hlc,hrc⟩ := hc
    obtain ⟨j,hle,hre,hj⟩ := he
    obtain rfl : k = j := hj
    refine ih ?_ ?_ hpe hpc hb.2
    · exact ⟨by rintro ⟨⟩,⟨fun _ => ⟨hsb,(hlr rfl).1⟩,hsc,hlc⟩,fun _ => ⟨(hlr rfl).2,Color.eq_black hg⟩,
        hrc,hgc⟩
    · exact ⟨k,⟨k,hse,hle,by simp [hp]⟩,⟨k,hre,hge,rfl⟩,rfl⟩
  | case5 l x c r p g fs hp hg hs hgs ih =>
    have hp := (Color.eq_red_or_black p.c).resolve_right hp
    obtain ⟨_,⟨hse,hsc,hsb⟩,hge,hgc,hpe,hpc⟩ := red_frame hp hpe hpc
    simp only [NoBlackInner, hp, hg, forall_const, if_false] at hb
    obtain rfl : c = .red := by simpa [color] using hb.1 hs
    obtain ⟨hlr,hlc,hrc⟩ := hc
    obtain ⟨j,hle,hre,hj⟩ := he
    obtain rfl : k = j := hj
    refine ih ?_ ?_ hpe hpc hb.2
    · exact ⟨by rintro ⟨⟩,⟨fun _ => ⟨Color.eq_black hg,(hlr rfl).1⟩,hgc,hlc⟩,fun _ => ⟨(hlr rfl).2,hsb⟩,
        hrc,hsc⟩
    · exact ⟨k,⟨k,hge,hle,rfl⟩,⟨k,hre,hse,by simp [hp]⟩,rfl⟩
  | case6 T fs hne =>
    rcases fs with _ | ⟨p,_ | ⟨g,fs⟩⟩
    · exact ⟨color_blacken T,hc.blacken,he.exists_blacken⟩
    · have hp : p.c = .black := hpc.2.2.1
      have hrb : (plug T [p]).RedBlackTree :=
        redBlack_plug.mpr ⟨⟨hc,by simp [Fits,hp],hpc⟩,k,m,he,hpe⟩
      rw [blacken_of_black hrb.root]
      exact hrb
    · cases T with
      | leaf =>
        have hrb : (plug .leaf (p :: g :: fs)).RedBlackTree :=
          redBlack_plug.mpr ⟨⟨hc,fits_black _,hpc⟩,k,m,he,hpe⟩
        rw [blacken_of_black hrb.root]
        exact hrb
      | node l x c r => exact (hne l x c r p g fs rfl rfl).elim

end Fixup
end Kaplar.RedBlack

namespace Kaplar.Rbtree
open RedBlack RedBlack.ColorTree
variable {ι : Type*} [DecidableEq ι] {t : Rbtree ι} {T : ColorTree ι} {fs : TreePath ι}
  {x node parent : ι}

/-- What one round of the fixup hands to the next one. -/
structure Handed (t t' : Rbtree ι) (T : ColorTree ι) (fs : TreePath ι) (node : ι) : Prop where
  zoom : t'.Zoom T fs
  top : T.top = some node
  cachedMin : t'.cachedMin = t.cachedMin

section FixupSide
variable {s side : Side} {g : ι} {cg : Color} {sib gsib : ColorTree ι}

theorem insertFixupRotate_spec (hg : gsib.color = .black)
    (h : t.Zoom T (⟨side,parent,.red,sib⟩ :: ⟨s,g,cg,gsib⟩ :: fs)) (hx : T.top = some node) :
    ∃ t' node' T', insertFixupRotate s t node parent g = some (t',node') ∧
      Handed t t' T' fs node' ∧
      fixup T (⟨side,parent,.red,sib⟩ :: ⟨s,g,cg,gsib⟩ :: fs) = fixup T' fs := by
  have hp := h.node_frame
  have hz := zoom_fill.mpr h
  dsimp only [Frame.fill] at hp hz
  by_cases hs : side = s
  · -- outer: the grandparent goes down on the far side
    subst hs
    have hne : (t.node parent).child side.flip ≠ some node := by
      have hd := hz.disjoint.1
      rw [hp, RbNode.child_flip_sided]
      exact fun he => hd (top_mem_ids hx) (top_mem_ids he)
    obtain ⟨t',hrot,hz,hm⟩ := rotate_flip_spec (zoom_near.mpr hz)
    have h1 : (t'.setColor parent .black).Zoom (branch side T parent .black _) fs := hz.setColor
    have h2 : ((t'.setColor parent .black).setColor g .red).Zoom (branch side sib g .red gsib) _ :=
      (zoom_far.mp h1).setColor
    refine ⟨_,parent,_,?_,⟨zoom_far.mpr h2,top_branch ..,hm⟩,?_⟩
    · rw [insertFixupRotate, if_neg hne, hrot]
      rfl
    · exact fixup_outer hx hg
  · -- inner: the node goes up twice
    obtain rfl : side = s.flip := Side.eq_flip hs
    have heq : (t.node parent).child s.flip = some node := by
      rw [hp, RbNode.child_sided, hx]
    obtain ⟨a,c,b,rfl⟩ := exists_branch_of_top hx s
    rw [branch_flip] at hz
    obtain ⟨t1,hrot1,hz1,hm1⟩ := rotate_spec hz
    obtain ⟨t2,hrot2,hz2,hm2⟩ := rotate_flip_spec (zoom_near.mpr hz1)
    have h1 : (t2.setColor node .black).Zoom (branch s _ node .black _) fs := hz2.setColor
    have h2 : ((t2.setColor node .black).setColor g .red).Zoom (branch s b g .red gsib) _ :=
      (zoom_far.mp h1).setColor
    refine ⟨_,node,_,?_,⟨zoom_far.mpr h2,top_branch ..,hm2.trans hm1⟩,?_⟩
    · rw [insertFixupRotate, if_pos heq, hrot1, Option.bind_eq_bind, Option.bind_some, hrot2]
      rfl
    · exact fixup_inner hg

theorem insertFixupSide_spec
    (h : t.Zoom T (⟨side,parent,.red,sib⟩ :: ⟨s,g,cg,gsib⟩ :: fs)) (hx : T.top = some node) :
    ∃ t' node' T', insertFixupSide s t node parent g = some (t',node') ∧
      Handed t t' T' fs node' ∧
      fixup T (⟨side,parent,.red,sib⟩ :: ⟨s,g,cg,gsib⟩ :: fs) = fixup T' fs := by
  have hz := zoom_fill.mpr h
  have hg := hz.node_frame
  have huncle : (t.node g).child s.flip = gsib.top := by rw [hg, RbNode.child_flip_sided]
  dsimp only [Frame.fill] at hz
  have hu := zoom_far.mp (zoom_fill.mpr hz)
  by_cases hr : gsib.color = .red
  · -- the uncle is red: the grandparent becomes the current node
    obtain ⟨d,u,e,rfl⟩ := exists_branch_of_red hr s
    have hc : (t.node u).color = .red := by rw [hu.node_branch, RbNode.color_sided]
    have h1 : (t.setColor parent .black).Zoom (branch side T parent .black sib) _ := hz.setColor
    have h2 : ((t.setColor parent .black).setColor g .red).Zoom (branch s _ g .red _) fs :=
      (zoom_fill.mpr h1).setColor
    have h3 : (((t.setColor parent .black).setColor g .red).setColor u .black).Zoom
      (branch s d u .black e) _ := (zoom_far.mp h2).setColor
    refine ⟨_,g,_,?_,⟨zoom_far.mpr h3,top_branch ..,rfl⟩,?_⟩
    · rw [insertFixupSide, huncle, top_branch]
      exact if_pos hc
    · rw [fixup_recolor hx hr, blacken_branch]
  · have hb := Color.eq_black hr
    have hrot : insertFixupSide s t node parent g = insertFixupRotate s t node parent g := by
      rw [insertFixupSide, huncle]
      cases hc : gsib.top with
      | none => rfl
      | some u =>
        obtain ⟨d,c,e,rfl⟩ := exists_branch_of_top hc s
        rw [color_branch] at hr
        exact if_neg (by rwa [hu.node_branch, RbNode.color_sided])
    rw [hrot]
    exact insertFixupRotate_spec hb h hx

end FixupSide

/-- The parent of the current node is red: one round of the loop. -/
theorem insertFixupBody_red {p : Frame ι} (h : t.Zoom T (p :: fs)) (hx : T.top = some node)
    (hr : RootBlack (p :: fs)) (hp : p.c = .red) :
    ∃ t' node' T' g gs, fs = g :: gs ∧ insertFixupBody (t,node) = some (.inl (t',node')) ∧
      Handed t t' T' gs node' ∧ fixup T (p :: fs) = fixup T' gs := by
  obtain ⟨side,parent,c,sib⟩ := p
  cases hp
  cases fs with
  | nil => cases hr
  | cons g gs =>
    obtain ⟨s,y,cg,gsib⟩ := g
    obtain ⟨a,cn,b,rfl⟩ := exists_branch_of_top hx .left
    have hn := h.node_branch
    have hpar := h.node_frame
    have hz := zoom_fill.mpr h
    have hg := hz.node_frame
    dsimp only [Frame.fill] at hz hpar
    obtain ⟨t',node',T',hi,hh,he⟩ := insertFixupSide_spec h hx
    refine ⟨t',node',T',_,_,rfl,?_,hh,he⟩
    have hsib : gsib.top ≠ some parent := by
      intro hs
      exact (zoom_near.mpr hz).disjoint.1 (mem_ids_branch.mpr (.inl rfl)) (top_mem_ids hs)
    rw [insertFixupBody, hn, RbNode.parent_sided, above_cons]
    simp only [hpar, RbNode.color_sided, RbNode.parent_sided, above_cons, if_true,
      Option.bind_eq_bind, Option.bind_some, Option.pure_def, hg]
    cases s <;> simp [RbNode.sided,Frame.fill,hsib,hi]

/-- The loop of the fixup ends in the tree `fixup` describes. -/
theorem insertFixupBody_loop {fuel : ℕ} (h : t.Zoom T fs) (hx : T.top = some node)
    (hr : RootBlack fs) (hf : fs.length < fuel) :
    ∃ t', loop insertFixupBody fuel (t,node) = some t' ∧
      t'.Shape (fixup T fs) ∧ t'.cachedMin = t.cachedMin := by
  refine loop_total (fun k s => ∃ U gs, Handed t s.1 U gs s.2 ∧ RootBlack gs ∧
    fixup U gs = fixup T fs ∧ gs.length = k) ?_ ⟨T,fs,⟨h,hx,rfl⟩,hr,rfl,rfl⟩ hf
  rintro k ⟨t',n⟩ ⟨U,gs,⟨hz,hn,hm⟩,hb,he,rfl⟩
  obtain ⟨a,c,b,rfl⟩ := exists_branch_of_top hn .left
  have hnode := hz.node_branch
  dsimp only at hz hn hm hnode
  cases gs with
  | nil =>
    left
    refine ⟨t',by rw [insertFixupBody, hnode]; rfl,?_,hm⟩
    rw [← he, fixup_nil]
    exact shape_plug.mpr hz
  | cons p gs =>
    by_cases hp : p.c = .black
    · left
      refine ⟨t',?_,?_,hm⟩
      · simp [insertFixupBody,hnode,hz.node_frame,hp]
      · rw [← he, fixup_of_black hp]
        exact shape_plug.mpr hz
    · right
      have hp := (Color.eq_red_or_black p.c).resolve_right hp
      obtain ⟨u,m,V,g,hs,rfl,hi,⟨hzu,hmu,hcu⟩,hf⟩ := insertFixupBody_red hz hn hb hp
      refine ⟨_,(u,m),hi,⟨V,hs,⟨hzu,hmu,hcu.trans hm⟩,hb.tail.tail,hf.symm.trans he,rfl⟩,?_⟩
      simp only [List.length_cons]
      omega

theorem rbtInsertFixup_spec {fuel : ℕ} (h : t.Zoom T fs) (hx : T.top = some node)
    (hr : RootBlack fs) (hf : fs.length < fuel) :
    ∃ t', rbtInsertFixup fuel t node = some t' ∧
      t'.Shape (fixup T fs).blacken ∧ t'.cachedMin = t.cachedMin := by
  obtain ⟨t',hl,hs,hm⟩ := insertFixupBody_loop h hx hr hf
  have hne : node ∈ (fixup T fs).ids := by
    rw [ids_fixup, mem_ids_plug]
    exact .inl (top_mem_ids hx)
  cases hF : fixup T fs with
  | leaf =>
    rw [hF] at hne
    cases hne
  | node l y c r =>
    rw [hF] at hs
    have hz : t'.Zoom (branch .left l y c r) [] := shape_plug.mp hs
    refine ⟨t'.setColor y .black,by simp [rbtInsertFixup,hl,hs.root,top],?_,hm⟩
    exact shape_plug.mpr hz.setColor

section Search
variable {compare : ι → ι → ℤ} {n : ι} {R : Option (TreePath ι)} {par : Option ι}

/-- The link the hole of a path hangs from. -/
def linkOf : TreePath ι → Link ι
  | [] => .root
  | f :: _ => .child f.side f.x

/-- `t'` is `t` up to the contents of the node that is being inserted. -/
structure OffNode (t t' : Rbtree ι) (n : ι) : Prop where
  root : t'.root = t.root
  cachedMin : t'.cachedMin = t.cachedMin
  node : ∀ y, y ≠ n → t'.node y = t.node y

omit [DecidableEq ι] in
theorem OffNode.shape (h : OffNode t t' n) (hs : t.Shape T) (hn : n ∉ T.ids) : t'.Shape T :=
  ⟨h.root.trans hs.root,hs.links.congr (fun y hy => h.node y (fun he => hn (he ▸ hy))),hs.nodup⟩

omit [DecidableEq ι] in
theorem linkOf_get (h : t.Zoom T fs) : (linkOf fs).get t = T.top := by
  cases fs with
  | nil => exact h.root
  | cons f fs => simp only [linkOf, Link.get, h.node_frame, RbNode.child_sided]

theorem linkOf_set (h : t.Zoom .leaf fs) (hn : n ∉ pathIds fs)
    (hx : t.node n = ⟨.red,above fs,none,none⟩) :
    ((linkOf fs).set t (some n)).Zoom (.node .leaf n .red .leaf) fs := by
  have hnd : ((ColorTree.node .leaf n .red .leaf).ids ++ pathIds fs).Nodup :=
    List.nodup_cons.mpr ⟨hn,h.nodup⟩
  cases fs with
  | nil => exact ⟨rfl,⟨hx,trivial,trivial⟩,trivial,hnd⟩
  | cons f fs =>
    have hf := h.node_frame
    obtain ⟨hs,hp⟩ := h.path.2
    have hnx : n ≠ f.x := fun he => hn (mem_pathIds_cons.mpr (.inl he))
    obtain ⟨_,hfs,hfp⟩ := (zoom_fill.mpr h).fresh
    refine ⟨h.root,⟨by simpa [linkOf,Link.set,hnx,top] using hx,trivial,trivial⟩,⟨?_,?_,?_⟩,hnd⟩
    · simp [linkOf,Link.set,hf,top]
    · apply hs.congr
      intro y hy
      have hne : y ≠ f.x := fun he => hfs (he ▸ hy)
      simp [linkOf,Link.set,hne]
    · apply hp.congr
      intro y hy
      have hne : y ≠ f.x := fun he => hfp (he ▸ hy)
      simp [linkOf,Link.set,hne]

theorem OffNode.setParent (h : OffNode t t' n) : OffNode t (t'.setParent n par) n :=
  ⟨h.root,h.cachedMin,fun y hy => by simp [hy,h.node y hy]⟩

theorem node_setParent_self {q : Option ι} (h : t.node n = ⟨.red,q,none,none⟩) :
    (t.setParent n par).node n = ⟨.red,par,none,none⟩ := by
  simp [h,RbNode.withParent]

variable (compare) in
/-- The search loop follows `descend`. -/
theorem insertSearch_spec {fuel : ℕ} (h : t.Shape T) (hn : n ∉ T.ids)
    (hx : t.node n = ⟨.red,none,none,none⟩) (hf : T.ids.length < fuel) :
    ∃ t', loop (insertSearchBody compare n) fuel (t,.root) =
        some (t',(descend compare n T []).map linkOf) ∧ OffNode t t' n ∧
      ∀ fs, descend compare n T [] = some fs → t'.node n = ⟨.red,above fs,none,none⟩ := by
  obtain ⟨⟨t',y⟩,hl,hy,ho,hq⟩ : ∃ r, loop (insertSearchBody compare n) fuel (t,.root) = some r ∧
      r.2 = (descend compare n T []).map linkOf ∧ OffNode t r.1 n ∧
        ∀ fs, descend compare n T [] = some fs → r.1.node n = ⟨.red,above fs,none,none⟩ := by
    refine loop_total (fun k s => ∃ U gs, OffNode t s.1 n ∧ plug U gs = T ∧ s.2 = linkOf gs ∧
      s.1.node n = ⟨.red,above gs,none,none⟩ ∧
      descend compare n U gs = descend compare n T [] ∧ U.ids.length = k) ?_
      ⟨T,[],⟨rfl,rfl,fun _ _ => rfl⟩,rfl,rfl,hx,rfl,rfl⟩ hf
    rintro k ⟨t',y⟩ ⟨U,gs,ho,rfl,rfl,hnode,hd,rfl⟩
    dsimp only at ho hnode
    have hz := shape_plug.mp (ho.shape h hn)
    have hget := linkOf_get hz
    cases U with
    | leaf =>
      left
      refine ⟨(t',some (linkOf gs)),by simp [insertSearchBody,hget,top],?_,ho,?_⟩
      · rw [← hd]
        rfl
      · intro fs hfs
        rw [← hd] at hfs
        cases hfs
        exact hnode
    | node l x c r =>
      have hbody : insertSearchBody compare n (t',linkOf gs) =
          if compare n x = 0 then some (.inr (t'.setParent n (some x),none))
          else if compare n x < 0 then some (.inl (t'.setParent n (some x),.child .left x))
          else some (.inl (t'.setParent n (some x),.child .right x)) := by
        simp [insertSearchBody,hget,top]
      have hnode' : (t'.setParent n (some x)).node n = ⟨.red,some x,none,none⟩ :=
        node_setParent_self hnode
      simp only [ids, List.length_append, List.length_cons]
      rw [descend] at hd
      rw [hbody]
      by_cases h0 : compare n x = 0
      · left
        rw [if_pos h0] at hd
        refine ⟨(t'.setParent n (some x),none),if_pos h0,by rw [← hd]; rfl,ho.setParent,?_⟩
        intro fs hfs
        rw [← hd] at hfs
        cases hfs
      · right
        rw [if_neg h0] at hd ⊢
        by_cases hlt : compare n x < 0
        · rw [if_pos hlt] at hd ⊢
          exact ⟨_,_,rfl,⟨l,⟨.left,x,c,r⟩ :: gs,ho.setParent,rfl,rfl,hnode',hd,rfl⟩,by omega⟩
        · rw [if_neg hlt] at hd ⊢
          exact ⟨_,_,rfl,⟨r,⟨.right,x,c,l⟩ :: gs,ho.setParent,rfl,rfl,hnode',hd,rfl⟩,by omega⟩
  exact ⟨t',by rw [hl, ← hy],ho,hq⟩

/-- The cached minimum after the insertion of `n`. -/
def insertMin (compare : ι → ι → ℤ) (n : ι) : Option ι → Option ι
  | none => some n
  | some m => if compare n m < 0 then some n else some m

omit [DecidableEq ι] in
theorem updateCachedMin_eq :
    updateCachedMin compare t n = { t with cachedMin := insertMin compare n t.cachedMin } := by
  unfold updateCachedMin insertMin
  cases hm : t.cachedMin with
  | none => rfl
  | some m =>
    by_cases hc : compare n m < 0
    · simp only [hc, if_true]
    · simp only [hc, if_false, ← hm]

theorem linkOf_set_cachedMin {q : Option ι} : ((linkOf fs).set t q).cachedMin = t.cachedMin := by
  cases fs <;> rfl

/-- The node as an insertion initializes it. -/
theorem offNode_fresh : OffNode t (t.modify n (fun _ => ⟨.red,none,none,none⟩)) n :=
  ⟨rfl,rfl,fun y hy => by simp [node_modify,hy]⟩

theorem rbtInsert_mono {fuel fuel' : ℕ} {r : Rbtree ι × Bool}
    (h : rbtInsert fuel compare t n = some r) (hf : fuel ≤ fuel') :
    rbtInsert fuel' compare t n = some r := by
  simp only [rbtInsert, Option.bind_eq_bind, Option.bind_eq_some_iff] at h ⊢
  obtain ⟨⟨t1,y⟩,h1,h2⟩ := h
  refine ⟨(t1,y),loop_mono h1 hf,?_⟩
  cases y with
  | none => exact h2
  | some y =>
    simp only [rbtInsertFixup, Option.bind_eq_bind, Option.bind_eq_some_iff] at h2 ⊢
    obtain ⟨t2,⟨t3,h3,h4⟩,h5⟩ := h2
    exact ⟨t2,⟨t3,loop_mono h3 hf,h4⟩,h5⟩

/-- An equal node is in the tree: the insertion fails and touches only its own node. -/
theorem rbtInsert_present {fuel : ℕ} (h : t.Shape T) (hn : n ∉ T.ids) (hf : T.ids.length < fuel)
    (hd : descend compare n T [] = none) :
    ∃ t', rbtInsert fuel compare t n = some (t',false) ∧ OffNode t t' n := by
  have ho := offNode_fresh (t := t) (n := n)
  obtain ⟨t',hl,ho',_⟩ := insertSearch_spec compare (ho.shape h hn) hn
    (by simp [node_modify]) hf
  refine ⟨t',by simp [rbtInsert,hl,hd],?_⟩
  exact ⟨ho'.root.trans ho.root,ho'.cachedMin.trans ho.cachedMin,
    fun y hy => (ho'.node y hy).trans (ho.node y hy)⟩

/-- The node hangs in the hole the search has found. -/
theorem OffNode.hang (ho : OffNode t t' n) (h : t.Shape T) (hn : n ∉ T.ids)
    (hd : descend compare n T [] = some fs) (hx : t'.node n = ⟨.red,above fs,none,none⟩) :
    (updateCachedMin compare ((linkOf fs).set t' (some n)) n).Zoom (.node .leaf n .red .leaf) fs := by
  have hplug : plug .leaf fs = T := descend_plug hd
  have hz : t'.Zoom .leaf fs := by
    apply shape_plug.mp
    rw [hplug]
    exact ho.shape h hn
  have hnp : n ∉ pathIds fs := fun hm => hn (hplug ▸ mem_ids_plug.mpr (.inr hm))
  have hz2 := linkOf_set hz hnp hx
  rw [updateCachedMin_eq]
  exact ⟨hz2.root,hz2.tree,hz2.path,hz2.nodup⟩

omit [DecidableEq ι] in
theorem rootBlack_descend (hc : T.color = .black) (hd : descend compare n T [] = some fs) :
    RootBlack fs := by
  have hplug : plug .leaf fs = T := descend_plug hd
  cases fs with
  | nil => trivial
  | cons f fs => exact rootBlack_plug (T := .leaf) (by rw [hplug, hc])

/-- Otherwise the node is hung into the hole the search has found, and the fixup runs. -/
theorem rbtInsert_absent {fuel : ℕ} (h : t.Shape T) (hc : T.color = .black) (hn : n ∉ T.ids)
    (hf : T.ids.length < fuel) (hd : descend compare n T [] = some fs) :
    ∃ t', rbtInsert fuel compare t n = some (t',true) ∧
      t'.Shape (fixup (.node .leaf n .red .leaf) fs).blacken ∧
      t'.cachedMin = insertMin compare n t.cachedMin := by
  have ho := offNode_fresh (t := t) (n := n)
  obtain ⟨t1,hl,ho1,hx⟩ := insertSearch_spec compare (ho.shape h hn) hn
    (by simp [node_modify]) hf
  have hz := ho1.hang (ho.shape h hn) hn hd (hx fs hd)
  have hlen : fs.length < fuel := by
    have hle := length_le_pathIds fs
    have hplug : plug .leaf fs = T := descend_plug hd
    have hids : T.ids.length = (pathIds fs).length := by
      rw [← hplug, ids_plug, pathIds]
      simp [ids]
    omega
  obtain ⟨t2,hfix,hs,hm⟩ := rbtInsertFixup_spec hz top_node (rootBlack_descend hc hd) hlen
  refine ⟨t2,by simp [rbtInsert,hl,hd,hfix],hs,?_⟩
  rw [hm, updateCachedMin_eq]
  simp only [linkOf_set_cachedMin, ho1.cachedMin, ho.cachedMin]

end Search

end Kaplar.Rbtree
