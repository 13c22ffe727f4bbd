import Kaplar.Server.ConnTimeout
import Mathlib.Data.List.Nodup

/-! # Shutting the connection manager down

The slots in use are closed one after the other, whatever is still outstanding on them: the
server thread has ended, and no completion is taken any more. Nothing crashes as long as
`on_close` only works on what belongs to its protocol.
-/
namespace Kaplar.Server
open Program
variable {σ α : Type}

namespace Services
variable (S : Services σ) (d : ℕ)

/-- One slot of the shutdown. -/
def shutdownSlot (i : ℕ) : Mgr σ Unit := do
  let c ← ctl i
  if c.flags.inuse then S.internalFinish d i else pure ()

def shutdownSlots : List ℕ → Mgr σ Unit
  | [] => pure ()
  | i :: is => do
    S.shutdownSlot d i
    shutdownSlots is

def connmgrShutdown : Mgr σ Unit := do
  let w ← get
  S.shutdownSlots d (List.range w.table.nextUnusedSlot)

end Services

/-- A script that neither sends, closes nor crashes. -/
def Script.Silent : Script σ α → Prop
  | .ret _ => True
  | .load k => ∀ p, (k p).Silent
  | .userdata k => ∀ v, (k v).Silent
  | .store _ k | .setUserdata _ k => k.Silent
  | .fault | .send _ _ _ | .close _ _ => False

variable {S : Services σ} {w w' : World σ} {h : List ConnEvent} {i d : ℕ} {is : List ℕ}

section Silent
variable {script : Script σ α} {uid : UInt32} {close : ℕ → Bool → Mgr σ Unit}

theorem Script.Silent.plain (hs : script.Silent) : script.Plain := by
  induction script with
  | ret a => trivial
  | load k ih => exact fun p => ih p (hs p)
  | userdata k ih => exact fun v => ih v (hs v)
  | store p k ih => exact ih hs
  | setUserdata v k ih => exact ih hs
  | fault | send _ _ _ _ | close _ _ _ => exact hs.elim

theorem wp_exec_silent (hs : script.Silent) :
    wp .nothing (script.exec close uid) (fun _ _ h' => h' = h) w h := by
  induction script generalizing w with
  | ret a => exact wp_pure (fun _ => rfl)
  | load k ih => exact wp_bind (wp_get (ih _ (hs _)))
  | store p k ih => exact wp_bind (wp_update (ih hs))
  | userdata k ih =>
    refine wp_bind (wp_bind (wp_ctl ?_))
    split
    · exact wp_pure (fun _ => ih _ (hs _))
    · exact wp_pure (fun _ => ih _ (hs _))
  | setUserdata v k ih =>
    refine wp_bind (wp_bind (wp_ctl ?_))
    split
    · exact wp_setCtl (ih hs)
    · exact wp_pure (fun _ => ih hs)
  | fault | send _ _ _ _ | close _ _ _ => exact hs.elim

end Silent

/-! ## One slot after the other -/

/-- The events of a connection that is shut down. -/
def ConnCtl.closing (c : ConnCtl) : List ConnEvent :=
  (if c.proto.isSome then [.called c.s c.uid .close] else []) ++
    [.closesocket c.s,.freed c.s (slotOf c.uid)]

def World.closing (w : World σ) (i : ℕ) : List ConnEvent :=
  if (w.table.ctl i).flags.inuse then (w.table.ctl i).closing else []

/-- The slots have been emptied and the others are as they were. -/
structure Emptied (is : List ℕ) (w w' : World σ) : Prop where
  unused : ∀ i ∈ is, ¬ w'.inuse i
  other : ∀ i, i ∉ is → w'.table.ctl i = w.table.ctl i

theorem Emptied.nil (w : World σ) : Emptied [] w w := ⟨nofun,fun _ _ => rfl⟩

theorem Emptied.cons {w₁ : World σ} (h₁ : Emptied [i] w w₁) (h₂ : Emptied is w₁ w') :
    Emptied (i :: is) w w' := by
  refine ⟨fun j hj => ?_,fun j hj => ?_⟩
  · by_cases hm : j ∈ is
    · exact h₂.unused j hm
    · rw [World.inuse, h₂.other j hm]
      exact h₁.unused j (List.mem_singleton.mpr ((List.mem_cons.mp hj).resolve_right hm))
  · rw [List.mem_cons, not_or] at hj
    rw [h₂.other j hj.2, h₁.other j (fun hm => hj.1 (List.mem_singleton.mp hm))]

/-- A slot in use is closed: its protocol first, its socket next. -/
theorem wp_closing (hS : ∀ p uid, ((S.protocol p).onClose uid).Silent) (hi : w.inuse i)
    (hslot : (slotOf (w.table.ctl i).uid).toNat = i) (close : ℕ → Bool → Mgr σ Unit) :
    wp .nothing (S.internalCloseOperation close i)
      (fun _ w' h' => h' = h ++ (w.table.ctl i).closing ∧ Emptied [i] w w') w h := by
  have hrelease {w₁ : World σ} (ht : Touch i w w₁) (es : List ConnEvent) :
      wp .nothing (release i) (fun _ w' h' => h' = h ++ (es ++ [.closesocket (w.table.ctl i).s,
        .freed (w.table.ctl i).s (slotOf (w.table.ctl i).uid)]) ∧ Emptied [i] w w') w₁ (h ++ es) := by
    intro _
    rw [release_apply, ht.same.s, ht.same.uid]
    refine ⟨List.append_assoc ..,fun j hj => ?_,fun j hj => ?_⟩
    · rw [List.mem_singleton.mp hj, World.inuse, World.free,
        not_inuse_internalFree ((ht.inuse i).mpr hi)]
      exact Bool.false_ne_true
    · have hne : j ≠ i := fun he => hj (List.mem_singleton.mpr he)
      rw [World.free, ctl_internalFree hne]
      exact (ht.other j hne).1
  refine wp_bind (wp_bind (wp_ctl ?_))
  rw [ConnCtl.closing]
  cases (w.table.ctl i).proto with
  | none =>
    have hx := hrelease (Touch.refl i w) []
    rw [List.append_nil] at hx
    exact wp_pure (fun _ => hx)
  | some p =>
    refine wp_bind (wp_emit (fun _ => wp_bind (wp_mono (wp_and (wp_exec_silent (hS p _))
      (wp_exec_plain (A := .lenient) (fun _ _ _ => trivial) hslot rfl (.inl (hS p _).plain))
      (fun _ => id)) ?_)))
    rintro _ w₁ _ _ ⟨rfl,-,ht,-⟩
    exact wp_setCtl (hrelease (ht.trans (Touch.setCtl w₁ ⟨rfl,rfl,rfl⟩)) _)

section Slots
variable {J : World σ → Prop}

theorem wp_shutdownSlot (hS : ∀ p uid, ((S.protocol p).onClose uid).Silent)
    (hJ : ∀ {w h i}, w.inuse i → J w → wp .lenient (S.internalFinish d i) (fun _ w' _ => J w') w h)
    (hslot : w.inuse i → (slotOf (w.table.ctl i).uid).toNat = i) (hj : J w) :
    wp .nothing (S.shutdownSlot d i)
      (fun _ w' h' => h' = h ++ w.closing i ∧ Emptied [i] w w' ∧ J w') w h := by
  refine wp_bind (wp_ctl ?_)
  rw [World.closing]
  by_cases hi : (w.table.ctl i).flags.inuse = true
  · rw [if_pos hi, if_pos hi]
    refine wp_mono (wp_and (wp_closing hS hi (hslot hi) _) (hJ hi hj) (fun _ => id)) ?_
    exact fun _ _ _ _ hq => ⟨hq.1.1,hq.1.2,hq.2⟩
  · rw [if_neg hi, if_neg hi, List.append_nil]
    refine wp_pure (fun _ => ⟨rfl,⟨fun j hj' => ?_,fun _ _ => rfl⟩,hj⟩)
    rw [List.mem_singleton.mp hj']
    exact hi

theorem wp_shutdownSlots (hS : ∀ p uid, ((S.protocol p).onClose uid).Silent)
    (hJ : ∀ {w h i}, w.inuse i → J w → wp .lenient (S.internalFinish d i) (fun _ w' _ => J w') w h)
    (hn : is.Nodup) (hslot : ∀ i, w.inuse i → (slotOf (w.table.ctl i).uid).toNat = i) (hj : J w) :
    wp .nothing (S.shutdownSlots d is)
      (fun _ w' h' => h' = h ++ is.flatMap w.closing ∧ Emptied is w w' ∧ J w') w h := by
  induction is generalizing w h with
  | nil => exact wp_pure (fun _ => ⟨(List.append_nil h).symm,.nil w,hj⟩)
  | cons i is ih =>
    rw [List.nodup_cons] at hn
    refine wp_bind (wp_mono (wp_shutdownSlot hS hJ (hslot i) hj) ?_)
    rintro _ w₁ _ _ ⟨rfl,he,hj₁⟩
    have hsame (j : ℕ) (hm : j ≠ i) : w₁.table.ctl j = w.table.ctl j :=
      he.other j (fun hj => hm (List.mem_singleton.mp hj))
    have hslot₁ (j : ℕ) (hu : w₁.inuse j) : (slotOf (w₁.table.ctl j).uid).toNat = j := by
      have hne : j ≠ i := fun hji => he.unused j (List.mem_singleton.mpr hji) hu
      rw [World.inuse, hsame j hne] at hu
      rw [hsame j hne]
      exact hslot j hu
    have hrest : is.flatMap w₁.closing = is.flatMap w.closing := by
      refine List.flatMap_congr (fun j hm => ?_)
      rw [World.closing, World.closing, hsame j (fun hji => hn.1 (hji ▸ hm))]
    refine wp_mono (ih hn.2 hslot₁ hj₁) ?_
    rintro _ w₂ _ _ ⟨rfl,he₂,hj₂⟩
    rw [hrest, List.flatMap_cons, List.append_assoc]
    exact ⟨rfl,he.cons he₂,hj₂⟩

end Slots

/-! ## The ends of the connections -/

theorem socket_closing {e : ConnEvent} (he : e ∈ w.closing i) : e.socket = (w.table.ctl i).s := by
  rw [World.closing] at he
  split at he
  · rcases List.mem_append.mp he with he | he
    · split at he
      · rw [List.mem_singleton.mp he]
        rfl
      · cases he
    · simp only [List.mem_cons, List.not_mem_nil, or_false] at he
      rcases he with rfl | rfl <;> rfl
  · cases he

theorem history_closing {s : ℕ} (hs : s ≠ (w.table.ctl i).s ∨ ¬ w.inuse i) :
    history s (w.closing i) = [] := by
  rcases hs with hs | hi
  · exact history_other (fun _ => socket_closing) hs
  · have hnil : w.closing i = [] := if_neg hi
    rw [hnil]
    rfl

/-- The others have sockets of their own. -/
theorem history_closings {s : ℕ} (hs : ∀ i ∈ is, w.inuse i → s ≠ (w.table.ctl i).s) :
    history s (is.flatMap w.closing) = [] := by
  induction is with
  | nil => rfl
  | cons i is ih =>
    rw [List.flatMap_cons, history_append, ih (fun j hj => hs j (List.mem_cons_of_mem _ hj)),
      List.append_nil]
    refine history_closing ?_
    by_cases hi : w.inuse i
    · exact .inl (hs i List.mem_cons_self hi)
    · exact .inr hi

theorem Managed.history_closings (hm : Managed S w h) (hn : is.Nodup) (hi : w.inuse i)
    (hmem : i ∈ is) : history (w.table.ctl i).s (is.flatMap w.closing) =
      (w.table.ctl i).closing := by
  obtain ⟨is₁,is₂,rfl⟩ := List.append_of_mem hmem
  have hnot : i ∉ is₁ ∧ i ∉ is₂ := by
    rw [List.nodup_middle, List.nodup_cons, List.mem_append, not_or] at hn
    exact hn.1
  have hown : w.closing i = (w.table.ctl i).closing := if_pos hi
  have hother {js : List ℕ} (hj : i ∉ js) :
      history (w.table.ctl i).s (js.flatMap w.closing) = [] := by
    refine Server.history_closings (fun j hjs hu he => hj ?_)
    rwa [hm.distinct i j hi hu he]
  rw [List.flatMap_append, List.flatMap_cons, history_append, history_append, hother hnot.1,
    hother hnot.2, List.append_nil, List.nil_append, history_own (fun _ => socket_closing), hown]

/-- Whatever is outstanding, the callbacks of a connection at rest end with its `on_close`. -/
theorem closed_closing {c : ConnCtl} {ps : List Pending} {l : Life} {ks : List Callback}
    {as : List Bool} (hd : Describes l ks as) (hlink : Linked S c ps l)
    (hend : l.stage.ending l.sendsFirst = true) :
    Closed l.sendsFirst (ks ++ calls c.closing) (as ++ answers c.closing) := by
  obtain ⟨first,stage,n⟩ := l
  have hcalls (hp : c.proto.isSome = true) : calls c.closing = [.close] := by
    rw [ConnCtl.closing, if_pos hp]
    rfl
  have hanswers : answers c.closing = [] := by
    rw [ConnCtl.closing]
    split <;> rfl
  have hcall {l' : Life} (hp : c.proto.isSome = true)
      (hc : Life.call ⟨first,stage,0⟩ .close = some l') :
      Describes l' (ks ++ calls c.closing) (as ++ answers c.closing) := by
    rw [hcalls hp, hanswers, List.append_nil]
    exact Describes.call (l := ⟨first,stage,0⟩) hd hc
  cases stage with
  | fresh =>
    obtain ⟨rfl,rfl⟩ := hd
    rw [hanswers, ConnCtl.closing, hlink.1]
    exact .unassigned
  | answered ok =>
    cases ok with
    | true => cases hend
    | false => exact hcall hlink.1 rfl
  | opened heard => exact hcall hlink.1 rfl
  | _ => cases hend

/-- Every connection there has been is closed, once, after its last callback. -/
structure ClosedDown (S : Services σ) (w : World σ) (h : List ConnEvent) (w' : World σ)
    (h' : List ConnEvent) : Prop where
  unused : ∀ i, ¬ w'.inuse i
  closed : ∀ s, s < w.nextSocket → endings .shut (history s h') = 1
  freed : ∀ s, s < w.nextSocket → endings .gone (history s h') = 1
  calls : ∀ {s svc : ℕ} {uid : UInt32}, .accepted s uid svc ∈ h →
    Closed (S.serviceSendsFirst svc) (calls (history s h')) (answers (history s h'))

theorem endings_closing {stage : Stage} (c : ConnCtl) (hs : stage = .shut ∨ stage = .gone) :
    endings stage c.closing = 1 := by
  rw [endings, ConnCtl.closing]
  rcases hs with rfl | rfl <;> split <;> rfl

theorem Good.endings_closings (hg : Good S w h) (hn : is.Nodup) (hall : ∀ i, w.inuse i → i ∈ is)
    {s : ℕ} (hs : s < w.nextSocket) {stage : Stage} (hst : stage = .shut ∨ stage = .gone) :
    endings stage (history s (h ++ is.flatMap w.closing)) = 1 := by
  have hm := hg.managed
  have hrank : 7 ≤ stage.rank ∧ stage.rank ≤ 8 := by rcases hst with rfl | rfl <;> decide
  rw [history_append, endings, List.countP_append]
  by_cases hused : ∃ i, w.inuse i ∧ (w.table.ctl i).s = s
  · obtain ⟨i,hi,rfl⟩ := hused
    obtain ⟨l,ho⟩ := hm.conn i hi
    have hlive := life_ends_le ho.life (r := stage.rank) (by omega)
    have hlt : l.stage.rank < 6 := by
      refine Stage.rank_of_live ?_
      have hend := hg.ending hi ho.life
      cases hs : l.stage <;> rw [hs] at hend <;> first | rfl | cases hend
    rw [if_neg (by omega), World.past] at hlive
    rw [hm.history_closings hn hi (hall i hi), Nat.le_zero.mp hlive, Nat.zero_add]
    exact endings_closing _ hst
  · have hfree (i : ℕ) (hi : w.inuse i) : (w.table.ctl i).s ≠ s := fun he => hused ⟨i,hi,he⟩
    obtain ⟨⟨l,hl,hgone,-⟩,-⟩ := hm.retired s hs hfree
    rw [history_closings (fun i _ hi => (hfree i hi).symm)]
    exact life_ends_eq hl hrank.1 (by rw [hgone]; exact hrank.2)

theorem Good.calls_closings (hg : Good S w h) (hn : is.Nodup) (hall : ∀ i, w.inuse i → i ∈ is)
    {s svc : ℕ} {uid : UInt32} (ha : .accepted s uid svc ∈ h) :
    Closed (S.serviceSendsFirst svc) (calls (history s (h ++ is.flatMap w.closing)))
      (answers (history s (h ++ is.flatMap w.closing))) := by
  have hm := hg.managed
  have hmem := mem_history.mpr ⟨ha,rfl⟩
  rw [history_append, calls_append, answers_append]
  by_cases hused : ∃ i, w.inuse i ∧ (w.table.ctl i).s = s
  · obtain ⟨i,hi,rfl⟩ := hused
    obtain ⟨l,ho⟩ := hm.conn i hi
    rw [hm.history_closings hn hi (hall i hi), ← life_sendsFirst ho.life hmem]
    exact closed_closing (describes_life ho.life) ho.linked (hg.ending hi ho.life)
  · have hfree (i : ℕ) (hi : w.inuse i) : (w.table.ctl i).s ≠ s := fun he => hused ⟨i,hi,he⟩
    obtain ⟨⟨l,hl,hgone,-⟩,-⟩ := hm.retired s (hm.future _ ha) hfree
    have hd := describes_life hl
    rw [Describes, hgone] at hd
    rw [history_closings (fun i _ hi => (hfree i hi).symm), ← life_sendsFirst hl hmem]
    simpa [calls,answers] using hd

/-- The shutdown ends all connections, and keeps what closing a connection keeps. -/
theorem Good.connmgrShutdown (hg : Good S w h) {J : World σ → Prop}
    (hS : ∀ p uid, ((S.protocol p).onClose uid).Silent)
    (hJ : ∀ {w h i}, w.inuse i → J w → wp .lenient (S.internalFinish d i) (fun _ w' _ => J w') w h)
    (hj : J w) : wp .nothing (S.connmgrShutdown d)
      (fun _ w' h' => ClosedDown S w h w' h' ∧ J w') w h := by
  have hused := hg.managed.kept.wf.used
  have hall (i : ℕ) (hi : w.inuse i) : i ∈ List.range w.table.nextUnusedSlot :=
    List.mem_range.mpr (hused i hi).1
  have hn : (List.range w.table.nextUnusedSlot).Nodup := List.nodup_range
  refine wp_bind (wp_get (wp_mono (wp_shutdownSlots hS hJ hn (fun i hi => (hused i hi).2) hj) ?_))
  rintro _ w' _ _ ⟨rfl,he,hj'⟩
  refine ⟨⟨fun i hi => ?_,fun s hs => ?_,fun s hs => ?_,?_⟩,hj'⟩
  · by_cases hm : i ∈ List.range w.table.nextUnusedSlot
    · exact he.unused i hm hi
    · rw [World.inuse, he.other i hm] at hi
      exact hm (hall i hi)
  · exact hg.endings_closings hn hall hs (.inl rfl)
  · exact hg.endings_closings hn hall hs (.inr rfl)
  · exact hg.calls_closings hn hall

end Kaplar.Server
