import Kaplar.Server.ConnRun

/-! # Protocols as their connections see them

What protocols keep among themselves is a property of what belongs to them and of the
faces of the slots in use. It suffices to look at each script on its own: it sees one
connection or, with a stale uid, none, and a write it starts may or may not succeed.
-/
namespace Kaplar.Server
open Program
variable {σ α : Type} {w w' : World σ} {h : List ConnEvent} {i d : ℕ}

/-- Whatever a script does from a state and a face, it ends in `Q`. -/
def Script.post (Q : α → σ → Option Face → Prop) : Script σ α → σ → Option Face → Prop
  | .ret a, p, f => Q a p f
  | .fault, _, _ => True
  | .load k, p, f => (k p).post Q p f
  | .store p k, _, f => k.post Q p f
  | .userdata k, p, f => (k (f.map Face.udata)).post Q p f
  | .setUserdata v k, p, f => k.post Q p (f.map (fun f => { f with udata := v }))
  | .send data len k, p, f => match f with
    | none => (k false).post Q p none
    | some f =>
      if f.busy then (k false).post Q p (some f)
      else ∀ ok, (k ok).post Q p (some { f with outputData := data, outputLen := len, busy := ok })
  | .close _ _, _, _ => False

/-- What a uid finds in a slot. -/
def World.Finds (w : World σ) (i : ℕ) (uid : UInt32) : Option Face → Prop
  | none => (w.table.ctl i).uid ≠ uid
  | some f => (w.table.ctl i).uid = uid ∧ (w.table.ctl i).face = f

section Exec
variable {uid : UInt32} {close : ℕ → Bool → Mgr σ Unit}

theorem finds_some {f : Face} : w.Finds i uid (some f) ↔
    (w.table.ctl i).uid = uid ∧ (w.table.ctl i).face = f := Iff.rfl

theorem Touch.priv (i : ℕ) (w : World σ) (q : σ) : Touch i w { w with priv := q } :=
  ⟨SameConn.refl _,fun _ _ => ⟨rfl,rfl⟩,rfl,rfl,rfl⟩

/-- A script in a world does what is shown of it on its own. -/
theorem wp_exec_post {Q : α → σ → Option Face → Prop} (hs : (slotOf uid).toNat = i)
    {script : Script σ α} {f : Option Face} (hf : w.Finds i uid f) (hp : script.post Q w.priv f) :
    wp .lenient (script.exec close uid)
      (fun a w' _ => Touch i w w' ∧ ∃ f', w'.Finds i uid f' ∧ Q a w'.priv f') w h := by
  -- what is shown of the rest of a script, from a world that a call has left
  have hthen : ∀ {w w₁ : World σ} {h : List ConnEvent} {x : Mgr σ α}, Touch i w w₁ →
      wp .lenient x (fun a w' _ => Touch i w₁ w' ∧ ∃ f', w'.Finds i uid f' ∧ Q a w'.priv f') w₁ h →
        wp .lenient x (fun a w' _ => Touch i w w' ∧ ∃ f', w'.Finds i uid f' ∧ Q a w'.priv f')
          w₁ h := by
    intro w w₁ h x ht hx
    refine wp_mono hx ?_
    rintro _ w' _ _ ⟨ht',hq⟩
    exact ⟨ht.trans ht',hq⟩
  induction script generalizing w h f with
  | ret a => exact wp_pure (fun _ => ⟨Touch.refl i w,f,hf,hp⟩)
  | fault => exact wp_bind (wp_ctl (wp_bind (wp_emit (fun _ => wp_crash trivial))))
  | load k ih => exact wp_bind (wp_get (ih w.priv hf hp))
  | store p k ih =>
    refine wp_bind (wp_update (hthen (Touch.priv i w p) (ih (f := f) ?_ hp)))
    cases f <;> exact hf
  | userdata k ih =>
    refine wp_bind (wp_bind (wp_ctl ?_))
    rw [hs]
    cases f with
    | none =>
      rw [if_neg hf]
      exact wp_pure (fun _ => ih none hf hp)
    | some f =>
      rw [if_pos hf.1]
      refine wp_pure (fun _ => ih _ hf ?_)
      rw [show (w.table.ctl i).udata = f.udata from congrArg Face.udata hf.2]
      exact hp
  | setUserdata v k ih =>
    refine wp_bind (wp_bind (wp_ctl ?_))
    rw [hs]
    cases f with
    | none =>
      rw [if_neg hf]
      exact wp_pure (fun _ => ih (f := none) hf hp)
    | some f =>
      rw [if_pos hf.1]
      refine wp_setCtl (hthen (Touch.setCtl w ⟨rfl,rfl,rfl⟩) (ih ?_ hp))
      refine finds_some.mpr ?_
      rw [World.ctl_setCtl_self, ← hf.2]
      exact ⟨hf.1,rfl⟩
  | send data len k ih =>
    refine wp_bind (wp_bind (wp_ctl ?_))
    rw [hs]
    cases f with
    | none =>
      rw [if_neg hf]
      exact wp_pure (fun _ => ih false (f := none) hf hp)
    | some f =>
      rw [if_pos hf.1]
      have hb : f.busy = (w.table.ctl i).flags.outputInProgress := (congrArg Face.busy hf.2).symm
      simp only [Script.post, hb] at hp
      cases hflag : (w.table.ctl i).flags.outputInProgress with
      | true =>
        rw [hflag, if_pos rfl] at hp
        exact wp_pure (fun _ => ih false hf hp)
      | false =>
        rw [hflag, if_neg Bool.false_ne_true] at hp
        have hset := World.ctl_setCtl_self w i
          (fun c => { c with outputData := data, outputLen := len })
        have ht : Touch i w (w.setCtl i (fun c => { c with outputData := data, outputLen := len })) :=
          Touch.setCtl w ⟨rfl,rfl,rfl⟩
        refine wp_bind (wp_setCtl (wp_startWrite ?_ ?_))
        · intro x
          refine hthen (ht.trans (Touch.reset _ i x)) (ih false ?_ (hp false))
          refine finds_some.mpr ?_
          rw [World.reset, hset, ← hf.2]
          exact ⟨hf.1,by rw [ConnCtl.face, ConnCtl.face, hflag]⟩
        · intro x
          refine hthen (ht.trans (Touch.begin _ _ x ⟨rfl,rfl,rfl⟩)) (ih true ?_ (hp true))
          refine finds_some.mpr ?_
          rw [ctl_begin, hset, ← hf.2]
          exact ⟨hf.1,rfl⟩
  | close abort k ih => exact hp.elim

end Exec

/-! ## What scripts keep -/

/-- A connection that has no protocol. -/
def Face.Fresh (f : Face) : Prop :=
  f.proto = none ∧ f.firstMsg = false ∧ f.busy = false ∧ ∃ svc, f.udata = .service svc

/-- Every slot in use is found by the uid of its connection. -/
def Slotted (F : ℕ → Option Face) : Prop := ∀ i f, F i = some f → (slotOf f.uid).toNat = i

/-- The end of a script that leaves a slot with its face. -/
def Leaves (I : σ → (ℕ → Option Face) → Prop) (F : ℕ → Option Face) (i : ℕ) :
    α → σ → Option Face → Prop :=
  fun _ q f => I q (Function.update F i f)

/-- What every script of the protocols, every task and every thread keeps. -/
structure Upholds (S : Services σ) (U : Usage σ) (I : σ → (ℕ → Option Face) → Prop) : Prop where
  opened : ∀ {q : σ} {F : ℕ → Option Face} {i : ℕ} {f : Face}, Slotted F → I q F → F i = none →
    f.Fresh → (slotOf f.uid).toNat = i → ¬ U.barred q f.uid → I q (Function.update F i (some f))
  dropped : ∀ {q : σ} {F : ℕ → Option Face} {i : ℕ} {f : Face}, Slotted F → I q F →
    F i = some f → f.proto = none → I q (Function.update F i none)
  assign : ∀ {q : σ} {F : ℕ → Option Face} {i : ℕ} {f : Face} (n : ℕ), Slotted F → I q F →
    F i = some f → f.Fresh → ((S.protocol n).onAssignProtocol f.uid).post (Leaves I F i) q
      (some { f with proto := some n })
  close : ∀ {q : σ} {F : ℕ → Option Face} {i n : ℕ} {f : Face}, Slotted F → I q F →
    F i = some f → f.proto = some n →
      ((S.protocol n).onClose f.uid).post (fun _ q _ => I q (Function.update F i none)) q (some f)
  connect : ∀ {q : σ} {F : ℕ → Option Face} {i n : ℕ} {f : Face}, Slotted F → I q F →
    F i = some f → f.proto = some n →
      ((S.protocol n).onConnect f.uid).post (Leaves I F i) q (some f)
  write : ∀ {q : σ} {F : ℕ → Option Face} {i n : ℕ} {f : Face}, Slotted F → I q F →
    F i = some f → f.proto = some n → f.busy = true →
      ((S.protocol n).onWrite f.uid).post (Leaves I F i) q (some { f with busy := false })
  recv : ∀ {q : σ} {F : ℕ → Option Face} {i n : ℕ} {f : Face} (data : List UInt8), Slotted F →
    I q F → F i = some f → f.proto = some n →
      ((S.protocol n).onRecvMessage f.uid data).post (Leaves I F i) q (some f)
  recvFirst : ∀ {q : σ} {F : ℕ → Option Face} {i n : ℕ} {f : Face} (data : List UInt8),
    Slotted F → I q F → F i = some f → f.proto = some n → f.firstMsg = false →
      ((S.protocol n).onRecvFirstMessage f.uid data).post (Leaves I F i) q
        (some { f with firstMsg := true })
  task : ∀ {q : σ} {F : ℕ → Option Face} {i : ℕ} {f : Face} {script : Script σ Unit},
    Slotted F → I q F → F i = some f → U.tasks q f.uid script →
      script.post (Leaves I F i) q (some f)
  stale : ∀ {q : σ} {F : ℕ → Option Face} {uid : UInt32} {script : Script σ Unit}, Slotted F →
    I q F → U.tasks q uid script → script.post (fun _ q _ => I q F) q none
  thread : ∀ {q q' : σ} {F : ℕ → Option Face}, I q F → U.threads q q' → I q' F

/-- The faces of a world and what belongs to the protocols. -/
def Upheld (I : σ → (ℕ → Option Face) → Prop) (w : World σ) : Prop :=
  Slotted w.face ∧ I w.priv w.face

section Upheld
variable {S : Services σ} {U : Usage σ} {I : σ → (ℕ → Option Face) → Prop} {w₀ : World σ} {n : ℕ}

theorem Slotted.uid (hs : Slotted w.face) (hi : w.inuse i) :
    (slotOf (w.table.ctl i).uid).toNat = i := hs i _ (World.face_of_inuse hi)

theorem Touch.face (ht : Touch i w w') (hi : w.inuse i) :
    w'.face = Function.update w.face i (some (w'.table.ctl i).face) := by
  funext j
  by_cases hj : j = i
  · subst hj
    rw [Function.update_self, World.face_of_inuse ((ht.inuse j).mpr hi)]
  · rw [Function.update_of_ne hj, ht.face_other hj]

theorem Slotted.touch (hs : Slotted w.face) (ht : Touch i w w') : Slotted w'.face := by
  intro j f hf
  obtain ⟨hj,rfl⟩ := World.inuse_of_face hf
  show (slotOf (w'.table.ctl j).uid).toNat = j
  rw [(ht.all j).uid]
  exact hs.uid ((ht.inuse j).mp hj)

/-- A callback does what is shown of its script. -/
theorem wp_callback_post {Q : α → σ → Option Face → Prop} (hs : Slotted w.face) (hi : w.inuse i)
    {k : Callback} {body : UInt32 → Script σ α}
    (hp : (body (w.table.ctl i).uid).post Q w.priv (some (w.table.ctl i).face)) :
    wp .lenient (S.callback d i k body)
      (fun a w' _ => Touch i w w' ∧ Q a w'.priv (some (w'.table.ctl i).face)) w h := by
  refine wp_bind (wp_ctl (wp_bind (wp_emit (fun _ => ?_))))
  refine wp_mono (wp_exec_post (hs.uid hi) (finds_some.mpr ⟨rfl,rfl⟩) hp) ?_
  rintro a w' _ _ ⟨ht,f,hf,hq⟩
  refine ⟨ht,?_⟩
  cases f with
  | none => exact absurd ht.same.uid hf
  | some f =>
    rw [hf.2]
    exact hq

theorem Upheld.leaves (hu : Upheld I w) (ht : Touch i w w') (hi : w.inuse i) {a : α}
    (hI : Leaves I w.face i a w'.priv (some (w'.table.ctl i).face)) : Upheld I w' := by
  refine ⟨hu.1.touch ht,?_⟩
  rw [ht.face hi]
  exact hI

/-- A callback through the protocol pointer, after the manager has marked the slot. -/
theorem Upheld.notify (hu : Upheld I w) (ht : Touch i w w₀) (hi : w.inuse i) {k : Callback}
    {body : Protocol σ → UInt32 → Script σ Status}
    (hp : ∀ n, (w₀.table.ctl i).proto = some n →
      (body (S.protocol n) (w.table.ctl i).uid).post (Leaves I w.face i) w₀.priv
        (some (w₀.table.ctl i).face)) :
    wp .lenient (S.notify d i k body) (fun _ w' _ => Upheld I w') w₀ h := by
  refine wp_bind (wp_ctl ?_)
  cases hn : (w₀.table.ctl i).proto with
  | none => exact wp_crash trivial
  | some n =>
    have hpost := hp n hn
    rw [← ht.same.uid] at hpost
    refine wp_bind (wp_mono (wp_callback_post (hu.1.touch ht) ((ht.inuse i).mpr hi) hpost) ?_)
    rintro st w' h' _ ⟨ht',hq⟩
    exact wp_bind (wp_emit (fun _ => wp_pure (fun _ => hu.leaves (ht.trans ht') hi hq)))

end Upheld

/-! ## What the manager keeps with them -/

section Dispatch
variable {S : Services σ} {U : Usage σ} {I : σ → (ℕ → Option Face) → Prop} {data : List UInt8}

theorem Upholds.onAssign (up : Upholds S U I) (hu : Upheld I w) (hi : w.inuse i)
    (hf : (w.table.ctl i).face.Fresh) (n : ℕ) :
    wp .lenient (S.onAssignProtocol d i n) (fun _ w' _ => Upheld I w' ∧ w'.inuse i)
      (w.setCtl i (fun c => { c with proto := some n })) h := by
  have ht : Touch i w (w.setCtl i (fun c => { c with proto := some n })) :=
    Touch.setCtl w ⟨rfl,rfl,rfl⟩
  have hpost := up.assign n hu.1 hu.2 (World.face_of_inuse hi) hf
  refine wp_bind (wp_ctl (wp_bind (wp_mono (wp_callback_post (Q := Leaves I w.face i)
    (hu.1.touch ht) ((ht.inuse i).mpr hi) ?_) ?_)))
  · rw [World.ctl_setCtl_self]
    exact hpost
  · rintro ok w' h' _ ⟨ht',hq⟩
    have hall := ht.trans ht'
    exact wp_bind (wp_emit (fun _ => wp_pure (fun _ =>
      ⟨hu.leaves hall hi hq,(hall.inuse i).mpr hi⟩)))

theorem Upholds.dispatchMessage (up : Upholds S U I) (hu : Upheld I w) (hi : w.inuse i) :
    wp .lenient (S.dispatchMessage d i data) (fun _ w' _ => Upheld I w') w h := by
  have hface := World.face_of_inuse hi
  refine wp_bind (wp_ctl ?_)
  cases hf : (w.table.ctl i).flags.firstMsg with
  | true =>
    rw [if_pos rfl]
    exact hu.notify (Touch.refl i w) hi (fun n hn => up.recv data hu.1 hu.2 hface hn)
  | false =>
    rw [if_neg Bool.false_ne_true]
    refine wp_bind (wp_setCtl (hu.notify (Touch.setCtl w ⟨rfl,rfl,rfl⟩) hi (fun n hn => ?_)))
    rw [World.ctl_setCtl_self] at hn ⊢
    exact up.recvFirst data hu.1 hu.2 hface hn hf

theorem Upholds.dispatchOnRecvMessage (up : Upholds S U I) (hu : Upheld I w) (hi : w.inuse i)
    (hf : (w.table.ctl i).proto = none → (w.table.ctl i).face.Fresh) :
    wp .lenient (S.internalDispatchOnRecvMessage d i data) (fun _ w' _ => Upheld I w') w h := by
  refine wp_bind (wp_ctl ?_)
  cases hn : (w.table.ctl i).proto with
  | some n => exact up.dispatchMessage hu hi
  | none =>
    cases (w.table.ctl i).udata with
    | service svc =>
      dsimp only
      cases S.serviceSelectProtocol svc data with
      | none => exact wp_pure (fun _ => hu)
      | some n =>
        refine wp_bind (wp_setCtl (wp_bind (wp_mono (up.onAssign hu hi (hf hn) n) ?_)))
        rintro ok w' h' _ ⟨hu',hi'⟩
        cases ok with
        | true => exact up.dispatchMessage hu' hi'
        | false => exact wp_pure (fun _ => hu')
    | _ => exact wp_crash trivial

theorem Upholds.dispatchOnConnect (up : Upholds S U I) (hu : Upheld I w) (hi : w.inuse i)
    (hf : (w.table.ctl i).face.Fresh) :
    wp .lenient (S.internalDispatchOnConnect d i) (fun _ w' _ => Upheld I w') w h := by
  refine wp_bind (wp_ctl ?_)
  cases (w.table.ctl i).udata with
  | service svc =>
    dsimp only
    cases S.serviceSendsFirst svc with
    | false => exact wp_pure (fun _ => hu)
    | true =>
      rw [if_pos rfl]
      refine wp_bind (wp_setCtl (wp_bind (wp_mono (up.onAssign hu hi hf _) ?_)))
      rintro ok w' h' _ ⟨hu',hi'⟩
      cases ok with
      | true =>
        exact hu'.notify (Touch.refl i w') hi'
          (fun n hn => up.connect hu'.1 hu'.2 (World.face_of_inuse hi') hn)
      | false => exact wp_pure (fun _ => hu')
  | _ => exact wp_crash trivial

theorem Upholds.dispatchOnWrite (up : Upholds S U I) (hu : Upheld I w) (hi : w.inuse i)
    (hb : (w.table.ctl i).flags.outputInProgress = true) :
    wp .lenient (S.internalDispatchOnWrite d i) (fun _ w' _ => Upheld I w') (w.written i) h := by
  refine hu.notify (Touch.setCtl w ⟨rfl,rfl,rfl⟩) hi (fun n hn => ?_)
  rw [World.ctl_setCtl_self] at hn ⊢
  exact up.write hu.1 hu.2 (World.face_of_inuse hi) hn hb

theorem face_free (hi : w.inuse i) : (w.free i).face = Function.update w.face i none := by
  funext j
  by_cases hj : j = i
  · subst hj
    rw [Function.update_self]
    refine World.face_of_free ?_
    rw [World.inuse, World.free, not_inuse_internalFree hi]
    exact Bool.false_ne_true
  · rw [Function.update_of_ne hj, World.face, World.face, World.free, ctl_internalFree hj]

theorem Slotted.update {F : ℕ → Option Face} (hs : Slotted F) {of : Option Face}
    (hf : ∀ f, of = some f → (slotOf f.uid).toNat = i) : Slotted (Function.update F i of) := by
  intro j f hj
  by_cases hji : j = i
  · subst hji
    rw [Function.update_self] at hj
    exact hf f hj
  · rw [Function.update_of_ne hji] at hj
    exact hs j f hj

/-- A connection in its slot may change, but for its uid. -/
theorem Slotted.set {F : ℕ → Option Face} (hs : Slotted F) {f g : Face} (hi : F i = some f)
    (hu : g.uid = f.uid) : Slotted (Function.update F i (some g)) := by
  refine hs.update ?_
  rintro _ ⟨⟩
  rw [hu]
  exact hs i f hi

theorem Upholds.closeOperation (up : Upholds S U I) (hu : Upheld I w) (hi : w.inuse i)
    (close : ℕ → Bool → Mgr σ Unit) :
    wp .lenient (S.internalCloseOperation close i) (fun _ w' _ => Upheld I w') w h := by
  have hface := World.face_of_inuse hi
  -- once the protocol is done with the connection the slot is only given back
  have hrest : ∀ {w' : World σ} {h' : List ConnEvent}, Touch i w w' →
      I w'.priv (Function.update w.face i none) →
        wp .lenient (do
          let c ← ctl i
          emit (.closesocket c.s)
          update (fun w => { w with table := w.table.internalFree i })
          emit (.freed c.s (slotOf c.uid)) : Mgr σ Unit) (fun _ w' _ => Upheld I w') w' h' := by
    intro w' h' ht hI
    refine wp_bind (wp_ctl (wp_bind (wp_emit (fun _ => wp_bind (wp_update (wp_emit (fun _ => ?_)))))))
    show Upheld I (w'.free i)
    have hfree : (w'.free i).face = Function.update w.face i none := by
      rw [face_free ((ht.inuse i).mpr hi), ht.face hi, Function.update_idem]
    refine ⟨?_,?_⟩
    · rw [hfree]
      exact hu.1.update nofun
    · rw [hfree]
      exact hI
  refine wp_bind (wp_bind (wp_ctl ?_))
  cases hn : (w.table.ctl i).proto with
  | none => exact wp_pure (fun _ => hrest (Touch.refl i w) (up.dropped hu.1 hu.2 hface hn))
  | some n =>
    refine wp_bind (wp_emit (fun _ => wp_bind (wp_mono (wp_exec_post (hu.1.uid hi)
      (finds_some.mpr ⟨rfl,rfl⟩) (up.close hu.1 hu.2 hface hn)) ?_)))
    rintro _ w' _ _ ⟨ht,_,_,hI⟩
    exact wp_setCtl (hrest (ht.trans (Touch.setCtl w' ⟨rfl,rfl,rfl⟩)) hI)

end Dispatch

section Serves
variable {S : Services σ} {U : Usage σ} {I : σ → (ℕ → Option Face) → Prop}

theorem Working.fresh (hw : Working S w h i) {l : Life}
    (hl : life S.serviceSendsFirst (w.past i h) = some l) (hst : l.stage = .fresh) :
    (w.table.ctl i).face.Fresh := by
  obtain ⟨l₀,ho⟩ := hw.managed.conn i hw.inuse
  rw [ho.life] at hl
  cases hl
  have hk := ho.linked
  unfold Linked at hk
  rw [hst] at hk
  obtain ⟨hproto,hfirst,hbusy,_,svc,hudata,_⟩ := hk
  exact ⟨hproto,hfirst,hbusy,svc,hudata⟩

/-- A slot that has just been handed out. -/
theorem face_opened {t : ConnTable} (ha : w.table.Allocated i t) (n svc : ℕ) :
    ∃ f, (w.opened i t n svc).face = Function.update w.face i (some f) ∧ w.face i = none ∧
      f.Fresh ∧ f.uid = (t.ctl i).uid := by
  have hself : (w.opened i t n svc).table.ctl i = { t.ctl i with
      s := n, rdwrCount := 1, pendingWork := 0, proto := none, udata := .service svc } :=
    World.ctl_setCtl_self ..
  have hflags : (t.ctl i).flags = { ConnFlags.zero with inuse := true } := by
    rw [ha.ctl, if_pos rfl]
  have hi : (w.opened i t n svc).inuse i := by rw [World.inuse, hself, hflags]
  refine ⟨((w.opened i t n svc).table.ctl i).face,?_,?_,?_,?_⟩
  · funext j
    by_cases hj : j = i
    · subst hj
      rw [Function.update_self, World.face_of_inuse hi]
    · rw [Function.update_of_ne hj, World.face, World.face, World.opened, World.ctl_setCtl,
        if_neg hj]
      show (if (t.ctl j).flags.inuse then some (t.ctl j).face else none) = _
      rw [ha.ctl, if_neg hj]
  · refine World.face_of_free ?_
    rw [World.inuse, ha.unused]
    exact Bool.false_ne_true
  · rw [hself]
    unfold ConnCtl.face
    rw [hflags]
    exact ⟨rfl,rfl,rfl,svc,rfl⟩
  · rw [hself]
    rfl

/-- Protocols that close nothing and whose scripts keep something, keep it in every server. -/
theorem Upholds.serves (up : Upholds S U I) (hc : S.Closeless)
    (hp : ∀ p uid, ((S.protocol p).onClose uid).Plain) :
    Serves .lenient S d U (fun w _ => Upheld I w) := by
  have hF : ∀ (h : List ConnEvent) (s : ℕ), (Rely.lenient : Rely ConnEvent).holds
      (h ++ [.faulted s]) → (Rely.lenient : Rely ConnEvent).mayCrash := fun _ _ _ => trivial
  have ob : Obeys .lenient S := ⟨hF,quietClose_of_plain hF hp,fun _ _ _ _ => .inr trivial,.inl hc⟩
  have hs : Serves .lenient S d U (fun _ _ => True) := ob.serves
  have hall : ∀ h : List ConnEvent, (Rely.lenient : Rely ConnEvent).holds h →
      (Rely.lenient : Rely ConnEvent).holds h := fun _ => id
  refine ⟨⟨?_,?_,?_,?_,?_⟩,?_,?_,?_⟩
  · rintro w w' h es ⟨hslot,hI⟩ ⟨hpriv,hface⟩
    have hfun : w'.face = w.face := funext hface
    refine ⟨by rw [hfun]; exact hslot,?_⟩
    rw [hpriv, hfun]
    exact hI
  · intro w h i close hw hu hops hst
    refine wp_mono (wp_and (hs.close close hw trivial hops hst)
      (up.closeOperation hu hw.inuse close) hall) ?_
    exact fun _ _ _ _ hq => ⟨hq.1.1,hq.2⟩
  · intro w h i l hw hu hl hst hcl hops ha
    refine wp_mono (wp_and (hs.connect hw trivial hl hst hcl hops ha)
      (up.dispatchOnConnect hu hw.inuse (hw.fresh hl hst)) hall) ?_
    exact fun _ _ _ _ hq => ⟨hq.1.1,hq.1.2.1,hq.2⟩
  · intro w h i l data hw hu hl hst hcl hnone hdue
    refine wp_mono (wp_and (hs.message hw trivial hl hst hcl hnone hdue)
      (up.dispatchOnRecvMessage hu hw.inuse ?_) hall) ?_
    · intro hn
      refine hw.fresh hl ?_
      rcases hst with ⟨hst,_⟩ | ⟨heard,hst⟩
      · exact hst
      · obtain ⟨l₀,ho⟩ := hw.managed.conn i hw.inuse
        rw [ho.life] at hl
        cases hl
        obtain ⟨p,hp⟩ := ho.linked.proto (by rw [hst]; rfl)
        rw [hn] at hp
        cases hp
    · exact fun _ _ _ _ hq => ⟨hq.1.1,hq.2⟩
  · intro w h i l heard hw hu hl hst hcl hb
    have hi : w.inuse i := ((Touch.setCtl w ⟨rfl,rfl,rfl⟩ : Touch i w (w.written i)).inuse i).mp
      hw.inuse
    refine wp_mono (wp_and (hs.write hw trivial hl hst hcl hb)
      (up.dispatchOnWrite hu hi hb) hall) ?_
    exact fun _ _ _ _ hq => ⟨hq.1.1,hq.1.2.1,hq.2⟩
  · intro w h uid script hg hu hk ht
    refine wp_mono (Q := fun _ w' h' => (Good S w' h' ∧ True) ∧ Upheld I w')
      (wp_and (hs.task hg trivial hk ht) ?_ hall) (fun _ _ _ _ hq => ⟨hq.1.1,hq.2⟩)
    by_cases hfound : (w.table.ctl (slotOf uid).toNat).uid = uid
    · obtain ⟨hi,_⟩ := hg.managed.known hk hfound
      have hpost := up.task hu.1 hu.2 (World.face_of_inuse hi)
        (show U.tasks w.priv (w.table.ctl (slotOf uid).toNat).uid script by rw [hfound]; exact ht)
      refine wp_mono (wp_exec_post rfl (finds_some.mpr ⟨hfound,rfl⟩) hpost) ?_
      rintro a w' _ _ ⟨ht',f,hf,hq⟩
      refine hu.leaves (a := a) ht' hi ?_
      cases f with
      | none => exact absurd (ht'.same.uid.trans hfound) hf
      | some f =>
        rw [hf.2]
        exact hq
    · refine wp_mono (wp_and (wp_exec_stale (α := Unit) hF hfound script)
        (wp_exec_post (f := none) rfl hfound (up.stale hu.1 hu.2 ht)) hall) ?_
      rintro _ _ _ _ ⟨⟨rfl,q,rfl⟩,_,_,_,hI⟩
      exact ⟨hu.1,hI⟩
  · exact fun ht hu => ⟨hu.1,up.thread hu.2 ht⟩
  · intro w h i svc t hu hsome ha hb
    obtain ⟨f,hface,hfree,hfresh,huid⟩ := face_opened ha w.nextSocket svc
    have hslot : (slotOf f.uid).toNat = i := by
      rw [huid]
      refine (ha.wf.used i ?_).2
      rw [ha.ctl, if_pos rfl]
    rw [← huid] at hb
    have hI := up.opened hu.1 hu.2 hfree hfresh hslot hb
    refine ⟨?_,?_⟩
    · rw [hface]
      exact hu.1.update (fun _ hf => Option.some.inj hf ▸ hslot)
    · rw [hface]
      exact hI

end Serves

end Kaplar.Server
