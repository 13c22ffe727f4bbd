import Kaplar.Server.ConnReentry

/-! # Accepting connections

Work on one connection leaves the other slots as they are. A new connection gets a free
slot as long as there is one; a full table is not checked for.
-/
namespace Kaplar.Server
open Program
variable {σ α β : Type} {S : Services σ} {w w' w'' : World σ} {h : List ConnEvent} {i d : ℕ}

/-! ## The other slots -/

/-- A slot whose connection has a protocol is the one its uid names. -/
def World.Named (w : World σ) (i : ℕ) : Prop :=
  (w.table.ctl i).proto.isSome = true → (slotOf (w.table.ctl i).uid).toNat = i

/-- Nothing has changed but one slot. -/
structure Apart (i : ℕ) (w w' : World σ) : Prop where
  named : w'.Named i
  other : ∀ j, j ≠ i → w'.table.ctl j = w.table.ctl j ∧ w'.ops j = w.ops j

def Keeps (i : ℕ) (x : Mgr σ α) : Prop :=
  ∀ (w : World σ) (h : List ConnEvent), w.Named i →
    wp .lenient x (fun _ w' _ => Apart i w w') w h

section Keeps
variable {x : Mgr σ α} {f : α → Mgr σ β}

theorem Apart.trans (ha : Apart i w w') (ha' : Apart i w' w'') : Apart i w w'' :=
  ⟨ha'.named,fun j hj => ⟨(ha'.other j hj).1.trans (ha.other j hj).1,
    (ha'.other j hj).2.trans (ha.other j hj).2⟩⟩

theorem apart_refl (hn : w.Named i) : Apart i w w := ⟨hn,fun _ _ => ⟨rfl,rfl⟩⟩

theorem keeps_pure (a : α) : Keeps (σ := σ) i (pure a) :=
  fun _ _ hn => wp_pure (fun _ => apart_refl hn)

theorem keeps_emit (e : ConnEvent) : Keeps (σ := σ) i (emit e) :=
  fun _ _ hn => wp_emit (fun _ => apart_refl hn)

theorem keeps_crash : Keeps (σ := σ) i (crash : Mgr σ α) := fun _ _ _ => wp_crash trivial

theorem Keeps.bind (hx : Keeps i x) (hf : ∀ a, Keeps i (f a)) : Keeps i (x >>= f) := by
  intro w h hn
  refine wp_bind (wp_mono (hx w h hn) ?_)
  intro a w' h' _ ha
  exact wp_mono (hf a w' h' ha.named) (fun _ _ _ _ ha' => ha.trans ha')

theorem Keeps.ite {c : Prop} [Decidable c] {x y : Mgr σ α} (hx : Keeps i x) (hy : Keeps i y) :
    Keeps i (if c then x else y) := by
  split
  · exact hx
  · exact hy

/-- What a program does may depend on the slot it works on. -/
theorem keeps_ctl {f : ConnCtl → Mgr σ β}
    (hf : ∀ w h, w.Named i → wp .lenient (f (w.table.ctl i)) (fun _ w' _ => Apart i w w') w h) :
    Keeps i (ctl i >>= f) := fun w h hn => wp_bind (wp_ctl (hf w h hn))

theorem keeps_setCtl {f : ConnCtl → ConnCtl}
    (hf : ∀ c, (f c).proto.isSome = true → (slotOf (f c).uid).toNat = i ∨
      (f c).uid = c.uid ∧ c.proto.isSome = true) : Keeps (σ := σ) i (setCtl i f) := by
  intro w h hn
  refine wp_setCtl ⟨?_,?_⟩
  · intro hp
    rw [World.ctl_setCtl_self] at hp ⊢
    rcases hf _ hp with hs | ⟨hu,hp'⟩
    · exact hs
    · rw [hu]
      exact hn hp'
  · intro j hj
    rw [World.ctl_setCtl, if_neg hj]
    exact ⟨rfl,rfl⟩

theorem keeps_setCtl_same {f : ConnCtl → ConnCtl}
    (hf : ∀ c, (f c).uid = c.uid ∧ (f c).proto = c.proto) : Keeps (σ := σ) i (setCtl i f) :=
  keeps_setCtl (fun c hp => .inr ⟨(hf c).1,(hf c).2 ▸ hp⟩)

theorem keeps_startOp (op : Op) : Keeps (σ := σ) i (startOp i op) := by
  intro w h hn
  refine wp_startOp ?_ ?_
  · exact fun x => ⟨hn,fun _ _ => ⟨rfl,rfl⟩⟩
  · exact fun x => ⟨hn,fun j hj => ⟨rfl,Function.update_of_ne hj ..⟩⟩

theorem keeps_startRead (op : Op) : Keeps (σ := σ) i (internalStartAsyncRead i op) :=
  (keeps_startOp op).bind (fun _ => Keeps.ite
    ((keeps_setCtl_same (by exact fun _ => ⟨rfl,rfl⟩)).bind (fun _ => keeps_pure _)) (keeps_pure _))

theorem keeps_startWrite : Keeps (σ := σ) i (internalStartAsyncWrite i) := by
  refine keeps_ctl (fun w h hn => Keeps.bind (keeps_startOp _) (fun _ => ?_) w h hn)
  exact Keeps.ite ((keeps_setCtl_same (by exact fun _ => ⟨rfl,rfl⟩)).bind
    (fun _ => keeps_pure _)) (keeps_pure _)

end Keeps

section Calls
variable {close : ℕ → Bool → Mgr σ Unit} {uid : UInt32}

/-- The calls of a protocol reach no slot but the one its uid names. -/
theorem keeps_exec (hs : (slotOf uid).toNat = i) (hclose : ∀ abort, Keeps i (close i abort))
    (script : Script σ α) : Keeps i (script.exec close uid) := by
  have hown : ∀ {β : Type} {x y : Mgr σ β}, Keeps i x → Keeps i y →
      Keeps i (ctl (slotOf uid).toNat >>= fun c => if c.uid = uid then x else y) := by
    intro β x y hx hy
    rw [hs]
    exact keeps_ctl (fun w h hn => (hx.ite hy) w h hn)
  induction script with
  | ret a => exact keeps_pure a
  | fault =>
    refine fun w h hn => wp_bind (wp_ctl (wp_bind (wp_emit (fun _ => wp_crash trivial))))
  | load k ih => exact fun w h hn => wp_bind (wp_get (ih w.priv w h hn))
  | store p k ih =>
    refine fun w h hn => wp_bind (wp_update ?_)
    exact wp_mono (ih { w with priv := p } h hn) (fun _ _ _ _ ha => ⟨ha.named,ha.other⟩)
  | userdata k ih =>
    refine Keeps.bind ?_ ih
    rw [connectionUserdata, hs]
    exact keeps_ctl (fun w h hn => (Keeps.ite (keeps_pure _) (keeps_pure _)) w h hn)
  | setUserdata v k ih =>
    refine Keeps.bind ?_ (fun _ => ih)
    refine hown ?_ (keeps_pure _)
    rw [hs]
    exact keeps_setCtl_same (by exact fun _ => ⟨rfl,rfl⟩)
  | send data len k ih =>
    refine Keeps.bind ?_ ih
    rw [connectionSend, hs]
    refine keeps_ctl (fun w h hn => (Keeps.ite (Keeps.ite (keeps_pure _) ?_) (keeps_pure _)) w h hn)
    exact (keeps_setCtl_same (by exact fun _ => ⟨rfl,rfl⟩)).bind (fun _ => keeps_startWrite)
  | close abort k ih =>
    refine Keeps.bind ?_ (fun _ => ih)
    rw [connectionClose, hs]
    exact keeps_ctl (fun w h hn => (Keeps.ite ((keeps_emit _).bind (fun _ => hclose abort))
      (keeps_pure _)) w h hn)

theorem keeps_closeOperation (hclose : ∀ abort, Keeps i (close i abort)) :
    Keeps i (S.internalCloseOperation close i) := by
  have hdispatch : ∀ w h, w.Named i → wp .lenient (S.internalDispatchOnClose close i)
      (fun _ w' _ => Apart i w w' ∧ (w'.table.ctl i).proto = none) w h := by
    intro w h hn
    refine wp_bind (wp_ctl ?_)
    cases hp : (w.table.ctl i).proto with
    | none => exact wp_pure (fun _ => ⟨apart_refl hn,hp⟩)
    | some p =>
      have hs := hn (by rw [hp]; rfl)
      refine wp_bind (wp_emit (fun _ => wp_bind ?_))
      refine wp_mono (keeps_exec hs hclose _ w _ hn) ?_
      intro _ w' h' _ ha
      have hself := World.ctl_setCtl_self w' i (fun c => { c with proto := none })
      refine wp_setCtl ⟨ha.trans ⟨?_,?_⟩,by rw [hself]⟩
      · intro hp'
        rw [hself] at hp'
        cases hp'
      · intro j hj
        rw [World.ctl_setCtl, if_neg hj]
        exact ⟨rfl,rfl⟩
  intro w h hn
  refine wp_bind (wp_mono (hdispatch w h hn) ?_)
  rintro _ w' h' _ ⟨ha,hp⟩
  refine wp_bind (wp_ctl (wp_bind (wp_emit (fun _ => wp_bind (wp_update (wp_emit (fun _ => ?_)))))))
  refine ha.trans ⟨?_,?_⟩
  · intro hp'
    rw [show ((w'.table.internalFree i).ctl i).proto = (w'.table.ctl i).proto by
      simp [ConnTable.internalFree], hp] at hp'
    cases hp'
  · exact fun j hj => ⟨ctl_internalFree hj,rfl⟩

theorem keeps_startClose (S : Services σ) (d i : ℕ) (abort : Bool) :
    Keeps i (S.internalStartCloseOperation d i abort) := by
  induction d generalizing abort with
  | zero => exact keeps_crash
  | succ d ih =>
    refine keeps_ctl (fun w h hn => (Keeps.ite (keeps_closeOperation ih) ?_) w h hn)
    exact (keeps_setCtl_same (by exact fun _ => ⟨rfl,rfl⟩)).bind (fun _ => keeps_emit _)

theorem keeps_callback (hs : (slotOf (w.table.ctl i).uid).toNat = i) (k : Callback)
    (body : UInt32 → Script σ α) : wp .lenient (S.callback d i k body)
      (fun _ w' _ => Apart i w w') w h :=
  wp_bind (wp_ctl (wp_bind (wp_emit (fun _ =>
    keeps_exec hs (fun abort => keeps_startClose S (d + 1) i abort) _ w _ (fun _ => hs)))))

theorem keeps_notify (k : Callback) (body : Protocol σ → UInt32 → Script σ Status) :
    Keeps i (S.notify d i k body) := by
  refine keeps_ctl (fun w h hn => ?_)
  cases hp : (w.table.ctl i).proto with
  | none => exact wp_crash trivial
  | some p =>
    refine wp_bind (wp_mono (keeps_callback (hn (by rw [hp]; rfl)) k _) ?_)
    intro st w' h' _ ha
    exact wp_bind (wp_emit (fun _ => wp_pure (fun _ => ha)))

theorem keeps_onAssign (hs : (slotOf (w.table.ctl i).uid).toNat = i) (p : ℕ) :
    wp .lenient (S.onAssignProtocol d i p) (fun _ w' _ => Apart i w w') w h := by
  refine wp_bind (wp_ctl (wp_bind (wp_mono (keeps_callback hs .assign _) ?_)))
  intro ok w' h' _ ha
  exact wp_bind (wp_emit (fun _ => wp_pure (fun _ => ha)))

theorem keeps_connect (hs : (slotOf (w.table.ctl i).uid).toNat = i) :
    wp .lenient (S.internalDispatchOnConnect d i) (fun _ w' _ => Apart i w w') w h := by
  refine wp_bind (wp_ctl ?_)
  cases (w.table.ctl i).udata with
  | service svc =>
    dsimp only
    split
    · refine wp_bind (wp_setCtl (wp_bind ?_))
      generalize hw : w.setCtl i _ = w₁
      have hself : (w₁.table.ctl i).uid = (w.table.ctl i).uid := by
        rw [← hw, World.ctl_setCtl_self]
      have ha : Apart i w w₁ := by
        refine ⟨fun _ => hself ▸ hs,?_⟩
        intro j hj
        rw [← hw, World.ctl_setCtl, if_neg hj]
        exact ⟨rfl,rfl⟩
      refine wp_mono (keeps_onAssign (hself ▸ hs) _) ?_
      intro ok w₂ h₂ _ ha₂
      cases ok with
      | true =>
        exact wp_mono (keeps_notify .connect _ w₂ h₂ ha₂.named)
          (fun _ _ _ _ ha₃ => (ha.trans ha₂).trans ha₃)
      | false => exact wp_pure (fun _ => ha.trans ha₂)
    · exact wp_pure (fun _ => apart_refl (fun _ => hs))
  | _ => exact wp_crash trivial

end Calls

/-! ## Capacity -/

/-- The connection has got a slot that was free, and the other slots are as they were. -/
def Admitted (w : World σ) (svc : ℕ) (r : Option Unit × World σ × List ConnEvent) : Prop :=
  ∃ i uid es, i < maxConnections ∧ ¬ w.inuse i ∧ slotOf uid = .ofNat i ∧
    r.2.2 = .accepted w.nextSocket uid svc :: es ∧
      ∀ j, j ≠ i → r.2.1.table.ctl j = w.table.ctl j ∧ r.2.1.ops j = w.ops j

/-- The socket has been dropped. -/
def Dropped (w : World σ) (r : Option Unit × World σ × List ConnEvent) : Prop :=
  r.2.1.table = w.table ∧ r.2.1.ops = w.ops

/-- Accepting is safe in a world: whatever service a connection comes in for and whichever
operations start, it is admitted or dropped. -/
def SafelyAccepts (A : Rely ConnEvent) (S : Services σ) (d : ℕ) (w : World σ)
    (h : List ConnEvent) : Prop :=
  ∀ svc x, A.holds (h ++ (S.perform d (.accept svc) (w.reset x)).2.2) →
    (S.perform d (.accept svc) (w.reset x)).1 = some () ∧
      (Admitted w svc (S.perform d (.accept svc) (w.reset x)) ∨
        Dropped w (S.perform d (.accept svc) (w.reset x)))

/-- Careful callbacks that do not crash by themselves and stop reading only where they may. -/
def Sound (h : List ConnEvent) : Prop := Careful h ∧ (∀ s, .faulted s ∉ h) ∧
  ∀ s k, .returned s k .stopReading ∈ h → k.isMessage = true

def Rely.sound : Rely ConnEvent := by
  refine ⟨Sound,?_,False⟩
  rintro h es ⟨hc,hf,hs⟩
  exact ⟨hc.start,fun s hm => hf s (List.mem_append_left _ hm),
    fun s k hm => hs s k (List.mem_append_left _ hm)⟩

section Capacity
variable {U : Usage σ} {q : σ}

theorem obeys_sound (S : Services σ) : Obeys Rely.sound S := by
  refine obeys_of_careful S (fun hs => hs.1) ?_ ?_
  · exact fun h s hs => hs.2.1 s (List.mem_append_right _ List.mem_cons_self)
  · exact fun h s k hs => .inl (hs.2.2 s k (List.mem_append_right _ List.mem_cons_self))

/-- An accepted connection works on its own slot only. -/
theorem accept_admits {t : ConnTable} (hw : w.table.internalAlloc = some (i,t))
    (ha : w.table.Allocated i t) (svc : ℕ) :
    wp .lenient (S.perform d (.accept svc)) (fun _ w' h' => ∃ uid es, slotOf uid = .ofNat i ∧
      h' = h ++ .accepted w.nextSocket uid svc :: es ∧
        ∀ j, j ≠ i → w'.table.ctl j = w.table.ctl j ∧ w'.ops j = w.ops j) w h := by
  refine wp_bind (wp_get (wp_bind (wp_bind (wp_get ?_))))
  rw [hw]
  refine wp_bind (wp_update (wp_bind (wp_emit (fun _ => wp_bind (wp_setCtl (wp_pure (fun _ => ?_)))))))
  have huid : slotOf (t.ctl i).uid = .ofNat i := by
    rw [ha.ctl, if_pos rfl]
    exact slotOf_issueUid _ _
  generalize hw₁ : World.setCtl _ i _ = w₁
  have hother : ∀ j, j ≠ i → w₁.table.ctl j = w.table.ctl j ∧ w₁.ops j = w.ops j := by
    intro j hj
    rw [← hw₁, World.ctl_setCtl, if_neg hj, ha.ctl, if_neg hj]
    exact ⟨rfl,rfl⟩
  have hs : (slotOf (w₁.table.ctl i).uid).toNat = i := by
    rw [← hw₁, World.ctl_setCtl_self, huid, ConnTable.toNat_ofNat_of_lt ha.bound]
  have hfinish : ∀ (x : Mgr σ Unit) (w₂ : World σ) (h₂ : List ConnEvent), Keeps i x →
      Apart i w₁ w₂ → h ++ [.accepted w.nextSocket (t.ctl i).uid svc] <+: h₂ →
        wp .lenient x (fun _ w' h' => ∃ uid es, slotOf uid = .ofNat i ∧
          h' = h ++ .accepted w.nextSocket uid svc :: es ∧
            ∀ j, j ≠ i → w'.table.ctl j = w.table.ctl j ∧ w'.ops j = w.ops j) w₂ h₂ := by
    intro x w₂ h₂ hx ha₂ hpre
    refine wp_mono (wp_grows (hx w₂ h₂ ha₂.named)) ?_
    rintro _ w₃ h₃ _ ⟨hpre',ha₃⟩
    obtain ⟨es,rfl⟩ := hpre.trans hpre'
    refine ⟨_,es,huid,by rw [List.append_assoc]; rfl,?_⟩
    intro j hj
    have hall := (ha₂.trans ha₃).other j hj
    exact ⟨hall.1.trans (hother j hj).1,hall.2.trans (hother j hj).2⟩
  refine wp_bind (wp_mono (wp_grows (keeps_connect hs)) ?_)
  rintro st w₂ h₂ _ ⟨hpre,ha₂⟩
  cases st with
  | ok =>
    refine hfinish _ w₂ h₂ ?_ ha₂ hpre
    exact (keeps_startRead _).bind (fun _ => (keeps_pure _).ite (keeps_startClose S _ i true))
  | stopReading => exact wp_crash trivial
  | close => exact hfinish _ w₂ h₂ (keeps_startClose S _ i false) ha₂ hpre
  | abort => exact hfinish _ w₂ h₂ (keeps_startClose S _ i true) ha₂ hpre

end Capacity

/-! ## A full table -/

/-- The events of connections that only wait. -/
def ConnEvent.waits : ConnEvent → Bool
  | .accepted _ _ _ | .started _ _ => true
  | _ => false

theorem sound_of_waits (hw : ∀ e ∈ h, e.waits = true) : Sound h := by
  have hcareful : ∀ (es h₀ : List ConnEvent), (∀ e ∈ h₀, e.waits = true) →
      (∀ e ∈ es, e.waits = true) → CarefulFrom h₀ es := by
    intro es
    induction es with
    | nil => exact fun _ _ _ => trivial
    | cons e es ih =>
      intro h₀ hh he
      have hwe := he e List.mem_cons_self
      refine ⟨?_,ih _ ?_ (fun e' hm => he e' (List.mem_cons_of_mem e hm))⟩
      · cases e with
        | accepted s uid svc => trivial
        | started s op =>
          rintro ⟨uid,hm⟩
          cases hh _ hm
        | _ => cases hwe
      · intro e' hm
        rcases List.mem_append.mp hm with hm | hm
        · exact hh e' hm
        · rw [List.mem_singleton.mp hm]
          exact hwe
  exact ⟨hcareful h [] (fun _ => nofun) hw,fun s hm => (by cases hw _ hm),
    fun s k hm => (by cases hw _ hm)⟩

/-- A client that connects and sends nothing takes the next slot. -/
theorem accept_waits {w : World Unit} {n : ℕ} (hn : n < maxConnections)
    (hf : w.table.freelist = noSlot) (hu : w.table.nextUnusedSlot = n)
    (hw : ∀ e ∈ h, e.waits = true) :
    wp .nothing ((onlyProtocol answering).perform 0 (.accept 0)) (fun _ w' h' =>
      w'.table.freelist = noSlot ∧ w'.table.nextUnusedSlot = n + 1 ∧ ∀ e ∈ h', e.waits = true)
      (w.reset [true]) h := by
  have htake : w.table.takeSlot = some (.ofNat n,{ w.table with nextUnusedSlot := n + 1 }) := by
    rw [ConnTable.takeSlot, if_neg (not_not_intro hf), if_neg (by omega), hu]
  have hadd : ∀ {h : List ConnEvent} {e : ConnEvent}, e.waits = true →
      (∀ e ∈ h, e.waits = true) → ∀ e' ∈ h ++ [e], e'.waits = true := by
    intro h e he hh e' hm
    rcases List.mem_append.mp hm with hm | hm
    · exact hh e' hm
    · rw [List.mem_singleton.mp hm]
      exact he
  refine wp_bind (wp_get (wp_bind (wp_bind (wp_get ?_))))
  rw [show (w.reset [true]).table.internalAlloc = _ from by
    rw [ConnTable.internalAlloc, show (w.reset [true]).table = w.table from rfl, htake]]
  refine wp_bind (wp_update (wp_bind (wp_emit (fun _ => wp_bind (wp_setCtl (wp_pure (fun _ => ?_)))))))
  refine wp_bind (wp_bind (wp_ctl ?_))
  rw [World.ctl_setCtl_self]
  refine wp_pure (fun _ => wp_bind (wp_bind (wp_bind (wp_get (wp_bind (wp_update ?_))))))
  refine wp_bind (wp_update (wp_bind (wp_emit (fun _ => wp_pure (fun _ => ?_)))))
  refine wp_bind (wp_setCtl (wp_pure (fun _ => wp_pure (fun _ => ⟨hf,rfl,?_⟩))))
  exact hadd rfl (hadd rfl hw)

end Kaplar.Server
