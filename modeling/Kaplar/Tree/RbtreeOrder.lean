import Kaplar.Tree.RbtreeRun

/-! # The ordered set of the nodes in the tree

The search for a free hole follows the keys, so that the node hung into it stands between
the ones before and the ones after it. Neither rotations nor colours matter for that.
-/
namespace Kaplar.Rbtree
open RedBlack RedBlack.ColorTree Execution
variable {ι κ : Type*} [LinearOrder κ] {compare : ι → ι → ℤ} {key : ι → κ}

def Ascends (key : ι → κ) (l : List ι) : Prop := l.Pairwise (fun a b => key a < key b)

section Search
variable {T l r : ColorTree ι} {fs gs : TreePath ι} {n x : ι} {c : Color}

theorem ascends_node : Ascends key (ColorTree.node l x c r).ids ↔
    Ascends key l.ids ∧ Ascends key r.ids ∧ (∀ m ∈ l.ids, key m < key x) ∧
      ∀ m ∈ r.ids, key x < key m := by
  simp only [Ascends, ids, List.pairwise_append, List.pairwise_cons, List.forall_mem_cons]
  constructor
  · rintro ⟨hl,⟨hx,hr⟩,hlx⟩
    exact ⟨hl,hr,fun m hm => (hlx m hm).1,hx⟩
  · rintro ⟨hl,hr,hlx,hx⟩
    exact ⟨hl,⟨hx,hr⟩,fun m hm => ⟨hlx m hm,fun k hk => lt_trans (hlx m hm) (hx k hk)⟩⟩

/-- The search fails to find a hole exactly if there is a node with the same key. -/
theorem descend_eq_none_iff (ho : Orders compare key) (h : Ascends key T.ids) :
    descend compare n T fs = none ↔ ∃ m ∈ T.ids, key m = key n := by
  induction T generalizing fs with
  | leaf => simp [descend,ids]
  | node l x c r ihl ihr =>
    obtain ⟨hl,hr,hlx,hxr⟩ := ascends_node.mp h
    have hmem : (∃ m ∈ (ColorTree.node l x c r).ids, key m = key n) ↔
        (∃ m ∈ l.ids, key m = key n) ∨ key x = key n ∨ ∃ m ∈ r.ids, key m = key n := by
      simp only [ids, List.mem_append, List.mem_cons, or_and_right, exists_or, exists_eq_left]
    rw [descend, hmem]
    rcases lt_trichotomy (key n) (key x) with hlt | heq | hgt
    · have h0 : compare n x ≠ 0 := fun h0 => absurd ((ho.zero n x).mp h0) (ne_of_lt hlt)
      rw [if_neg h0, if_pos ((ho.neg n x).mpr hlt), ihl hl]
      refine ⟨Or.inl,?_⟩
      rintro (hm | hm | ⟨m,hm,he⟩)
      · exact hm
      · exact absurd hm (ne_of_gt hlt)
      · exact absurd he (ne_of_gt (lt_trans hlt (hxr m hm)))
    · rw [if_pos ((ho.zero n x).mpr heq)]
      exact iff_of_true rfl (.inr (.inl heq.symm))
    · have h0 : compare n x ≠ 0 := fun h0 => absurd ((ho.zero n x).mp h0) (ne_of_gt hgt)
      have hneg : ¬ compare n x < 0 := fun hn => absurd ((ho.neg n x).mp hn) (not_lt_of_gt hgt)
      rw [if_neg h0, if_neg hneg, ihr hr]
      refine ⟨fun hm => .inr (.inr hm),?_⟩
      rintro (⟨m,hm,he⟩ | hm | hm)
      · exact absurd he (ne_of_lt (lt_trans (hlx m hm) hgt))
      · exact absurd hm (ne_of_lt hgt)
      · exact hm

/-- The hole it finds stands between the smaller and the greater keys. -/
theorem descend_between (ho : Orders compare key) (h : Ascends key T.ids)
    (hb : ∀ m ∈ before fs, key m < key n) (ha : ∀ m ∈ after fs, key n < key m)
    (hd : descend compare n T fs = some gs) :
    (∀ m ∈ before gs, key m < key n) ∧ ∀ m ∈ after gs, key n < key m := by
  induction T generalizing fs with
  | leaf =>
    cases hd
    exact ⟨hb,ha⟩
  | node l x c r ihl ihr =>
    obtain ⟨hl,hr,hlx,hxr⟩ := ascends_node.mp h
    rw [descend] at hd
    split at hd
    case isTrue => cases hd
    case isFalse h0 =>
      have hne : key n ≠ key x := fun he => h0 ((ho.zero n x).mpr he)
      split at hd
      case isTrue hneg =>
        have hlt := (ho.neg n x).mp hneg
        have ha' : ∀ m ∈ after (⟨.left,x,c,r⟩ :: fs), key n < key m := by
          intro m hm
          simp only [after, Frame.after, List.mem_append, List.mem_cons] at hm
          rcases hm with (rfl | hm) | hm
          · exact hlt
          · exact lt_trans hlt (hxr m hm)
          · exact ha m hm
        exact ihl hl (by simpa [before,Frame.before] using hb) ha' hd
      case isFalse hneg =>
        have hle : key x ≤ key n := le_of_not_gt fun hlt => hneg ((ho.neg n x).mpr hlt)
        have hgt : key x < key n := lt_of_le_of_ne hle (Ne.symm hne)
        have hb' : ∀ m ∈ before (⟨.right,x,c,l⟩ :: fs), key m < key n := by
          intro m hm
          simp only [before, Frame.before, List.mem_append, List.mem_singleton] at hm
          rcases hm with hm | hm | rfl
          · exact hb m hm
          · exact lt_trans (hlx m hm) hgt
          · exact hgt
        exact ihr hr hb' (by simpa [after,Frame.after] using ha) hd

/-- A node hung into that hole leaves the sequence ascending. -/
theorem ascends_hung (ho : Orders compare key) (h : Ascends key T.ids)
    (hd : descend compare n T [] = some gs) :
    Ascends key (plug (.node .leaf n c .leaf) gs).ids := by
  obtain ⟨hb,ha⟩ := descend_between ho h (by simp [before]) (by simp [after]) hd
  have hT : Ascends key (before gs ++ after gs) := by
    have hp := congrArg ids (descend_plug hd)
    rw [ids_plug, plug_nil] at hp
    simp only [ids, List.append_nil] at hp
    rwa [hp]
  rw [ids_plug]
  simp only [Ascends, ids, List.nil_append, List.append_assoc, List.singleton_append,
    List.pairwise_append, List.pairwise_cons, List.forall_mem_cons] at hT ⊢
  exact ⟨hT.1,⟨ha,hT.2.1⟩,fun m hm => ⟨hb m hm,hT.2.2 m hm⟩⟩

omit [LinearOrder κ] in
theorem mem_ids_hung (hd : descend compare n T [] = some gs) {m : ι} :
    m ∈ (plug (.node .leaf n c .leaf) gs).ids ↔ m = n ∨ m ∈ T.ids := by
  have hp := congrArg ids (descend_plug hd)
  rw [plug_nil] at hp
  rw [← hp]
  simp only [ids_plug, ids, List.mem_append, List.mem_cons, List.not_mem_nil, or_false]
  tauto

/-- The cached minimum is compared with the new node only. -/
theorem head?_hung (ho : Orders compare key) (h : Ascends key T.ids)
    (hd : descend compare n T [] = some gs) :
    insertMin compare n T.ids.head? = (plug (.node .leaf n c .leaf) gs).ids.head? := by
  obtain ⟨hb,ha⟩ := descend_between ho h (by simp [before]) (by simp [after]) hd
  have hp := congrArg ids (descend_plug hd)
  rw [plug_nil] at hp
  rw [← hp]
  simp only [ids_plug, ids, List.nil_append, List.append_nil, List.append_assoc, List.cons_append]
  cases hbs : before gs with
  | nil =>
    cases has : after gs with
    | nil => rfl
    | cons m ms =>
      rw [has] at ha
      exact if_pos ((ho.neg n m).mpr (ha m List.mem_cons_self))
  | cons m ms =>
    rw [hbs] at hb
    exact if_neg fun hneg => absurd ((ho.neg n m).mp hneg) (not_lt_of_gt (hb m List.mem_cons_self))

end Search

/-- The memory holds a search tree, and its first node is cached. -/
structure Represents (key : ι → κ) (t : Rbtree ι) (T : ColorTree ι) : Prop where
  shape : t.Shape T
  ascends : Ascends key T.ids
  cachedMin : t.cachedMin = T.ids.head?

section Operations
variable [DecidableEq ι] {t t' : Rbtree ι} {T : ColorTree ι} {n : ι} {es : List (Event ι)}

/-- A removal from a valid tree completes and leaves a valid tree of the other nodes. -/
theorem rbtRemove_valid (h : Represents key t T) (hrb : T.RedBlackTree) (hn : n ∈ T.ids)
    {fuel : ℕ} (hf : T.ids.length < fuel) :
    ∃ t' U, rbtRemove fuel t n = some t' ∧ Represents key t' U ∧ U.RedBlackTree ∧
      U.ids = T.ids.erase n := by
  obtain ⟨t',hr,U,hU,hUrb,hids,hmin⟩ := rbtRemove_spec h.shape hrb hn hf
  refine ⟨t',U,hr,⟨hU,?_,hmin h.cachedMin⟩,hUrb,hids⟩
  rw [hids]
  exact h.ascends.sublist List.erase_sublist

/-- What an insertion of a node that does not hang in the tree does. -/
theorem rbtInsert_represents (ho : Orders compare key) (h : Represents key t T)
    (hc : T.color = .black) (hn : n ∉ T.ids) {fuel : ℕ} (hf : T.ids.length < fuel) :
    (∃ t', rbtInsert fuel compare t n = some (t',false) ∧ (∃ m ∈ T.ids, key m = key n) ∧
      OffNode t t' n) ∨
    ∃ t' U, rbtInsert fuel compare t n = some (t',true) ∧ (¬ ∃ m ∈ T.ids, key m = key n) ∧
      Represents key t' U ∧ U.color = .black ∧ ∀ m, m ∈ U.ids ↔ m = n ∨ m ∈ T.ids := by
  cases hd : descend compare n T [] with
  | none =>
    obtain ⟨t',hi,hoff⟩ := rbtInsert_present h.shape hn hf hd
    exact .inl ⟨t',hi,(descend_eq_none_iff ho h.ascends).mp hd,hoff⟩
  | some fs =>
    obtain ⟨t',hi,hs,hm⟩ := rbtInsert_absent h.shape hc hn hf hd
    have hids : (fixup (.node .leaf n .red .leaf) fs).blacken.ids =
        (plug (.node .leaf n .red .leaf) fs).ids := by rw [ids_blacken, ids_fixup]
    have hiff : descend compare n T [] = none ↔ _ := descend_eq_none_iff ho h.ascends
    have hnew : ¬ ∃ m ∈ T.ids, key m = key n := by
      rw [← hiff, hd]
      simp
    refine .inr ⟨t',_,hi,hnew,⟨hs,?_,?_⟩,color_blacken _,?_⟩
    · rw [hids]
      exact ascends_hung ho h.ascends hd
    · rw [hm, h.cachedMin, hids]
      exact head?_hung ho h.ascends hd
    · intro m
      rw [hids]
      exact mem_ids_hung hd

/-- The insertion of a node that does not hang in the tree. -/
inductive Inserts (compare : ι → ι → ℤ) (t : Rbtree ι) : List (Event ι) → Rbtree ι → Prop
  | insert {fuel : ℕ} {n : ι} {b : Bool} {t' : Rbtree ι} : ¬ t.Has n →
      rbtInsert fuel compare t n = some (t',b) → Inserts compare t [.insert n b] t'

def rbtMin (t : Rbtree ι) : Option ι := t.cachedMin

/-- What holds after any series of insertions. -/
structure Kept (key : ι → κ) (es : List (Event ι)) (t : Rbtree ι) (T : ColorTree ι) : Prop where
  represents : Represents key t T
  root : T.color = .black
  mem : ∀ m, m ∈ T.ids ↔ .insert m true ∈ es

omit [DecidableEq ι] in
theorem Kept.init (node : ι → RbNode ι) : Kept key [] (rbtInit node) .leaf :=
  ⟨⟨⟨rfl,trivial,List.nodup_nil⟩,.nil,rfl⟩,rfl,by simp [ids]⟩

/-- One insertion, whatever number of iterations it was allowed. -/
theorem Kept.insert {fs : List (Event ι)} (ho : Orders compare key) (hk : Kept key es t T)
    (hs : Inserts compare t fs t') : ∃ U, Kept key (es ++ fs) t' U := by
  obtain ⟨hrep,hc,hmem⟩ := hk
  cases hs with
  | @insert fuel n b _ hn hi =>
    have hn' : n ∉ T.ids := fun hm => hn (hrep.shape.has_iff.mpr hm)
    have hsame {r : Rbtree ι × Bool} (hr : rbtInsert (T.ids.length + 1) compare t n = some r) :
        r = (t',b) := by
      have h1 := rbtInsert_mono hi (Nat.le_max_left fuel (T.ids.length + 1))
      have h2 := rbtInsert_mono hr (Nat.le_max_right fuel (T.ids.length + 1))
      exact Option.some.inj (h2.symm.trans h1)
    rcases rbtInsert_represents ho hrep hc hn' (Nat.lt_succ_self _) with
      ⟨t1,hr,_,hoff⟩ | ⟨t1,U,hr,_,hU,hUc,hUm⟩
    · cases hsame hr
      refine ⟨T,⟨hoff.shape hrep.shape hn',hrep.ascends,hoff.cachedMin.trans hrep.cachedMin⟩,hc,?_⟩
      intro m
      simp [hmem]
    · cases hsame hr
      refine ⟨U,hU,hUc,?_⟩
      intro m
      simp [hUm,hmem,or_comm]

theorem kept_run (ho : Orders compare key) {node : ι → RbNode ι}
    (hr : Run (Inserts compare) (rbtInit node) es t) : ∃ T, Kept key es t T := by
  refine hr.traced (I := fun es t => ∃ T, Kept key es t T) ⟨.leaf,Kept.init node⟩ ?_
  rintro es s fs t ⟨T,hk⟩ hs
  exact hk.insert ho hs

/-- Insertions alone, rotations misplaced or not, keep the ordered set of the nodes inserted:
every call completes, and refuses exactly the nodes whose key is there. -/
theorem rbtInsert_orderedSet (ho : Orders compare key) {node : ι → RbNode ι}
    (hr : Run (Inserts compare) (rbtInit node) es t) :
    ∃ T, t.Shape T ∧ (∀ x, t.root = some x → (t.node x).color = .black) ∧ Ascends key T.ids ∧
      (∀ m, m ∈ T.ids ↔ .insert m true ∈ es) ∧ rbtMin t = T.ids.head? ∧
      ∀ n, ¬ t.Has n → ∀ fuel, T.ids.length < fuel →
        ∃ t' b, rbtInsert fuel compare t n = some (t',b) ∧
          (b = false ↔ ∃ m, .insert m true ∈ es ∧ key m = key n) ∧
          (b = false → t'.root = t.root ∧ t'.cachedMin = t.cachedMin ∧
            ∀ m, t.Has m → t'.node m = t.node m) := by
  obtain ⟨T,hrep,hc,hmem⟩ := kept_run ho hr
  refine ⟨T,hrep.shape,?_,hrep.ascends,hmem,hrep.cachedMin,?_⟩
  · intro x hx
    obtain ⟨a,c,b,rfl⟩ := exists_branch_of_top (hrep.shape.root.symm.trans hx) .left
    rw [color_branch] at hc
    rw [(linked_branch.mp hrep.shape.links).1, RbNode.color_sided, hc]
  · intro n hn fuel hf
    have hn' : n ∉ T.ids := fun hm => hn (hrep.shape.has_iff.mpr hm)
    have hkey : (∃ m, .insert m true ∈ es ∧ key m = key n) ↔ ∃ m ∈ T.ids, key m = key n := by
      simp only [hmem]
    rcases rbtInsert_represents ho hrep hc hn' hf with ⟨t1,hr,hm,hoff⟩ | ⟨t1,U,hr,hm,_⟩
    · refine ⟨t1,false,hr,iff_of_true rfl (hkey.mpr hm),fun _ => ⟨hoff.root,hoff.cachedMin,?_⟩⟩
      intro m hmt
      refine hoff.node m ?_
      rintro rfl
      exact hn hmt
    · exact ⟨t1,true,hr,iff_of_false (by decide) (fun h => hm (hkey.mp h)),by simp⟩

/-- A series of insertions among other operations. -/
theorem inserts_of_steps {C : TreePath ι → Prop} (hr : Run (Step C compare) t es t')
    (he : ∀ e ∈ es, ∃ n b, e = .insert n b) : Run (Inserts compare) t es t' := by
  induction hr with
  | start => exact .start
  | step _ hs ih =>
    obtain ⟨hes,hfs⟩ := List.forall_mem_append.mp he
    refine (ih hes).step ?_
    cases hs with
    | insert hn _ hi => exact .insert hn hi
    | remove =>
      obtain ⟨n,b,h⟩ := hfs _ List.mem_cons_self
      cases h

end Operations

/-- The root of a tree of three nodes is removed. -/
theorem rbtRemove_valid_root :
    ∃ t : Rbtree ℕ, ∃ U, Represents id t U ∧ U.RedBlackTree ∧ U.ids = [4,6] := by
  have hI : insertTrees (fun _ => True) compareKey .leaf [4,5,6] =
      some (.node (.node .leaf 4 .red .leaf) 5 .black (.node .leaf 6 .red .leaf)) := by decide
  obtain ⟨t,hr,hs⟩ := insertTrees_run (initial_redBlack blank).1 rfl hI
  obtain ⟨T,hk⟩ := kept_run orders_compareKey (inserts_of_steps hr (by simp))
  obtain rfl := hk.represents.shape.unique hs
  have hrb : (ColorTree.node (.node .leaf 4 .red .leaf) 5 .black
      (.node .leaf 6 .red .leaf)).RedBlackTree :=
    ⟨rfl,by simp [Calm,color],1,by simp [ColorTree.Even]⟩
  obtain ⟨t',U,_,hU,hUrb,hids⟩ := rbtRemove_valid hk.represents hrb (n := 5) (by decide)
    (Nat.lt_succ_self _)
  exact ⟨t',U,hU,hUrb,hids⟩

/-- The series whose last fixup breaks the red-black rules keeps the set. -/
theorem rbtInsert_orderedSet_seven :
    ∃ t : Rbtree ℕ, rbtMin t = some 0 ∧ t.Has 3 := by
  have hI : (insertTrees (fun _ => True) compareKey .leaf [4,5,6,0,1,2,3]).map ids =
      some [0,1,2,3,4,5,6] := by decide
  obtain ⟨U,hU,hids⟩ := Option.map_eq_some_iff.mp hI
  obtain ⟨t,hr,hs⟩ := insertTrees_run (initial_redBlack blank).1 rfl hU
  obtain ⟨T,hT,_,_,_,hmin,_⟩ := rbtInsert_orderedSet orders_compareKey
    (inserts_of_steps hr (by simp))
  obtain rfl := hT.unique hs
  refine ⟨t,by rw [hmin, hids]; rfl,hT.has_iff.mpr ?_⟩
  rw [hids]
  decide

end Kaplar.Rbtree
