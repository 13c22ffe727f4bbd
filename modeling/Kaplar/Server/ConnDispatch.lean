import Kaplar.Server.ConnCalls

/-! # Dispatching to a protocol

One callback takes its connection from one stage to the next, whatever calls it makes. A
protocol that closes its own connection may go on only where the handler does nothing
more with the slot.
-/
namespace Kaplar.Server
open Program
variable {σ α : Type} {S : Services σ} {A : Rely ConnEvent} {w w₀ w' : World σ}
  {h h' : List ConnEvent} {i d : ℕ}

/-- No callback but perhaps `on_close` closes its connection. -/
structure Services.Closeless (S : Services σ) : Prop where
  assign : ∀ p uid, ((S.protocol p).onAssignProtocol uid).Closeless
  connect : ∀ p uid, ((S.protocol p).onConnect uid).Closeless
  write : ∀ p uid, ((S.protocol p).onWrite uid).Closeless
  recv : ∀ p uid body, ((S.protocol p).onRecvMessage uid body).Closeless
  recvFirst : ∀ p uid body, ((S.protocol p).onRecvFirstMessage uid body).Closeless

/-- What a handler may be told by a callback that has closed its connection. -/
def harmless : Callback → Status → Bool
  | .recvFirst _, .stopReading | .recv _, .stopReading | .write, .ok => true
  | _, _ => false

/-- What is relied on of the callbacks. -/
structure Obeys (A : Rely ConnEvent) (S : Services σ) : Prop where
  faulted : ∀ h s, A.holds (h ++ [.faulted s]) → A.mayCrash
  quiet : QuietClose A S
  allowed : ∀ h s k, A.holds (h ++ [.returned s k .stopReading]) → k.isMessage = true ∨ A.mayCrash
  late : S.Closeless ∨
    (∀ h s ok, Quit s h → ¬ A.holds (h ++ [.assigned s ok])) ∧
      ∀ h s k st, Quit s h → A.holds (h ++ [.returned s k st]) → harmless k st = true

/-- A callback after which the connection is still open, in a given stage. -/
structure Turned (S : Services σ) (k : Callback) (i : ℕ) (stage : Stage) (first : Bool)
    (w : World σ) (h : List ConnEvent) (w' : World σ) (h' : List ConnEvent) : Prop where
  working : Working S w' h' i
  touch : Touch i w w'
  past : ∃ es, w'.past i h' =
    w.past i h ++ [.called (w.table.ctl i).s (w.table.ctl i).uid k] ++ es ∧ Still es
  reads : (w'.ops i).countP (fun p => p.op.isRead) = (w.ops i).countP (fun p => p.op.isRead)
  waits : (w'.table.ctl i).flags.closing = true → w'.ops i ≠ []
  stage : ∀ l, life S.serviceSendsFirst (w'.past i h') = some l →
    l.stage = stage ∧ l.sendsFirst = first

section Callback
variable {k : Callback} {l' : Life}

/-- The state in which the script of a callback starts. -/
structure Starting (S : Services σ) (w : World σ) (h : List ConnEvent) (i : ℕ) (k : Callback)
    (l' : Life) (w₀ : World σ) : Prop where
  working : Working S w h i
  touch : Touch i w w₀
  conn : ConnOk S (w₀.table.ctl i) (w₀.ops i)
    (w.past i h ++ [.called (w.table.ctl i).s (w.table.ctl i).uid k]) l'
  stage : l'.stage.open = true
  waits : (w₀.table.ctl i).flags.closing = true → w₀.ops i ≠ []
  reads : (w₀.ops i).countP (fun p => p.op.isRead) = (w.ops i).countP (fun p => p.op.isRead)

theorem Starting.past (hs : Starting S w h i k l' w₀) :
    w₀.past i (h ++ [.called (w.table.ctl i).s (w.table.ctl i).uid k]) =
      w.past i h ++ [.called (w.table.ctl i).s (w.table.ctl i).uid k] :=
  hs.touch.past_concat ⟨rfl,rfl⟩

theorem Starting.ready (hs : Starting S w h i k l' w₀) :
    Ready S w₀ (h ++ [.called (w.table.ctl i).s (w.table.ctl i).uid k]) i := by
  refine ⟨hs.working.touch hs.touch ?_ ⟨l',hs.conn⟩,hs.waits,?_⟩
  · intro e he
    rw [List.mem_singleton.mp he]
    exact ⟨rfl,rfl⟩
  · intro l hl
    rw [hs.past, hs.conn.life] at hl
    cases hl
    exact hs.stage

theorem wp_callback (ob : Obeys A S) (hs : Starting S w h i k l' w₀)
    (body : UInt32 → Script σ α) :
    wp A (S.callback d i k body) (fun _ w' h' =>
      Talked S i w₀ (h ++ [.called (w.table.ctl i).s (w.table.ctl i).uid k]) w' h' ∨
        ¬ (body (w.table.ctl i).uid).Closeless ∧
          Parted S w₀ (h ++ [.called (w.table.ctl i).s (w.table.ctl i).uid k]) i w' h') w₀ h := by
  refine wp_bind (wp_ctl (wp_bind (wp_emit (fun _ => ?_))))
  have hx := wp_exec ob.faulted ob.quiet hs.ready d (body (w₀.table.ctl i).uid)
  rw [hs.touch.same.uid] at hx ⊢
  rw [hs.touch.same.s]
  exact hx

/-- The answer of a callback that leaves the connection open. -/
theorem Starting.turned (hs : Starting S w h i k l' w₀) {e : ConnEvent} {stage : Stage}
    (ht : Talked S i w₀ (h ++ [.called (w.table.ctl i).s (w.table.ctl i).uid k]) w' h')
    (he : e.inside (w.table.ctl i)) (hstill : Still [e])
    (hnext : ∀ l : Life, l.stage = l'.stage →
      l.next S.serviceSendsFirst e = some { l with stage := stage })
    (hlinked : ∀ (c : ConnCtl) (ps : List Pending) (l : Life), l.stage = l'.stage → Linked S c ps l →
      Linked S c ps { l with stage := stage }) :
    Turned S k i stage l'.sendsFirst w h w' (h' ++ [e]) := by
  obtain ⟨es,hpast,hes⟩ := ht.past
  rw [hs.past] at hpast
  have hcs : (w'.table.ctl i).s = (w.table.ctl i).s := ht.touch.same.s.trans hs.touch.same.s
  have huid : (w'.table.ctl i).uid = (w.table.ctl i).uid :=
    ht.touch.same.uid.trans hs.touch.same.uid
  have he' : e.inside (w'.table.ctl i) := by
    cases e with
    | accepted => exact he.elim
    | freed => exact he.elim
    | called s uid k => exact ⟨he.1.trans hcs.symm,he.2.trans huid.symm⟩
    | _ => exact Eq.trans he hcs.symm
  have hpast' : w'.past i (h' ++ [e]) = w'.past i h' ++ [e] := (Touch.refl i w').past_concat he'
  obtain ⟨l₁,ho⟩ := ht.working.managed.conn i ht.working.inuse
  have hst : l₁.stage = l'.stage ∧ l₁.sendsFirst = l'.sendsFirst := by
    have hl := ho.life
    rw [hpast, life_append, hs.conn.life] at hl
    exact hes.stage hl
  have hcons : ConnOk S (w'.table.ctl i) (w'.ops i) (w'.past i h' ++ [e])
      { l₁ with stage := stage } := by
    refine ho.events (SameIo.refl _) ?_ rfl hstill (hlinked _ _ _ hst.1 ho.linked)
    rw [List.foldlM_cons, hnext l₁ hst.1]
    rfl
  refine ⟨?_,hs.touch.trans ht.touch,⟨es ++ [e],?_,?_⟩,ht.reads.trans hs.reads,ht.waits,?_⟩
  · refine ht.working.touch (Touch.refl i w') ?_ ⟨_,hcons⟩
    intro e' hm
    rw [List.mem_singleton.mp hm]
    exact he'
  · rw [hpast', hpast, List.append_assoc]
  · have hs₁ := hes.still
    exact ⟨by rw [bodies_append, hs₁.1, hstill.1]; rfl,by rw [received_append, hs₁.2, hstill.2]; rfl⟩
  · intro l hl
    rw [hpast', hcons.life] at hl
    cases hl
    exact ⟨rfl,hst.2⟩

/-- What a closed connection's callback returns comes after its end. -/
theorem Gone.returned (hg : Gone S w₀ h i w' h') (st : Status) :
    Good S w' (h' ++ [.returned (w₀.table.ctl i).s k st]) := by
  have hm := hg.good.managed
  have he : ∀ e ∈ [ConnEvent.returned (w₀.table.ctl i).s k st],
      e.socket = (w₀.table.ctl i).s := by
    intro e hm
    rw [List.mem_singleton.mp hm]
    rfl
  have hpast : ∀ j, w'.inuse j →
      w'.past j (h' ++ [.returned (w₀.table.ctl i).s k st]) = w'.past j h' := by
    intro j hj
    rw [World.past, World.past, history_append, history_other he (hg.unowned j hj),
      List.append_nil]
  refine ⟨⟨?_,?_,hm.idle,?_,hm.sockets,hm.distinct,?_,?_,?_⟩,?_⟩
  · rw [tableEvents_append]
    exact (List.append_nil (tableEvents h')).symm ▸ hm.kept
  · intro j hj
    rw [hpast j hj]
    exact hm.conn j hj
  · intro j hj
    rw [occupant_concat]
    exact hm.occupied j hj
  · intro s hs hfree
    have hr := hm.retired s hs hfree
    by_cases hsi : s = (w₀.table.ctl i).s
    · rw [history_append, hsi, history_own he]
      rw [hsi] at hr
      obtain ⟨⟨l,hl,hst,hout⟩,hf⟩ := hr
      refine ⟨⟨l,?_,hst,hout⟩,hf.still ⟨rfl,rfl⟩⟩
      rw [life_concat, hl]
      rfl
    · rw [history_append, history_other he hsi, List.append_nil]
      exact hr
  · intro e hme
    rcases List.mem_append.mp hme with hme | hme
    · exact hm.future e hme
    · rw [he e hme]
      exact hg.known
  · intro s uid k' hk
    rcases List.mem_append.mp hk with hk | hk
    · obtain ⟨svc,ha⟩ := hm.named s uid k' hk
      exact ⟨svc,List.mem_append_left _ ha⟩
    · cases List.mem_singleton.mp hk
  · intro j hj l hl
    rw [hpast j hj] at hl
    exact hg.good.settled j hj l hl

/-- A callback that returns a status. -/
theorem wp_notify (ob : Obeys A S) (hs : Starting S w h i k l' w₀) {p : ℕ}
    (hproto : (w₀.table.ctl i).proto = some p) (body : Protocol σ → UInt32 → Script σ Status)
    (hcl : S.Closeless → (body (S.protocol p) (w.table.ctl i).uid).Closeless) :
    wp A (S.notify d i k body) (fun st w' h' =>
      (st = .stopReading → k.isMessage = true ∨ A.mayCrash) ∧
        (Turned S k i l'.stage l'.sendsFirst w h w' h' ∨
          harmless k st = true ∧ Good S w' h')) w₀ h := by
  refine wp_bind (wp_ctl ?_)
  rw [hproto]
  refine wp_bind (wp_mono (wp_callback ob hs _) ?_)
  rw [hs.touch.same.s]
  rintro st w' h' _ hres
  refine wp_bind (wp_emit (fun hA => wp_pure (fun _ => ⟨?_,?_⟩)))
  · rintro rfl
    exact ob.allowed _ _ _ hA
  · rcases hres with ht | ⟨hn,hg⟩
    · exact .inl (hs.turned ht rfl ⟨rfl,rfl⟩ (fun l hl => by rw [← hl]; rfl)
        (fun c ps l hl hk => by rw [← hl]; exact hk))
    · right
      rcases ob.late with hall | ⟨_,hlate⟩
      · exact absurd (hcl hall) hn
      · have hquit := hg.quit
        have hgood := hg.toGone.returned (k := k) st
        rw [hs.touch.same.s] at hquit hgood
        exact ⟨hlate _ _ _ _ hquit hA,hgood⟩

end Callback

/-! ## Dispatching -/

/-- A connection whose protocol has returned a status, and that is still open. -/
structure Handled (S : Services σ) (i : ℕ) (st : Status) (w : World σ) (h : List ConnEvent) :
    Prop where
  working : Working S w h i
  waits : (w.table.ctl i).flags.closing = true → w.ops i ≠ []
  stage : ∀ l, life S.serviceSendsFirst (w.past i h) = some l →
    l.stage.ending l.sendsFirst = true ∧ (st = .ok ∨ st = .stopReading → l.stage ≠ .answered false)

/-- The same for a connection that waits for the next message. -/
structure Resumed (S : Services σ) (i : ℕ) (st : Status) (w : World σ) (h : List ConnEvent) :
    Prop extends Handled S i st w h where
  reads : (w.ops i).countP (fun p => p.op.isRead) = 0
  aligned : st = .ok → Aligned (w.past i h)

section Dispatch
variable {l : Life}

/-- Marking the protocol and asking it. -/
theorem wp_onAssign (ob : Obeys A S) (hw : Working S w h i)
    (hl : life S.serviceSendsFirst (w.past i h) = some l) (hst : l.stage = .fresh)
    (hc : (w.table.ctl i).flags.closing = true → w.ops i ≠ []) (p : ℕ) :
    wp A (S.onAssignProtocol d i p) (fun ok w' h' =>
      Turned S .assign i (.answered ok) l.sendsFirst w h w' h')
      (w.setCtl i (fun c => { c with proto := some p })) h := by
  obtain ⟨l₀,ho⟩ := hw.managed.conn i hw.inuse
  rw [ho.life] at hl
  cases hl
  have hself := World.ctl_setCtl_self w i (fun c => { c with proto := some p })
  have hs : Starting S w h i .assign { l with stage := .asking }
      (w.setCtl i (fun c => { c with proto := some p })) := by
    refine ⟨hw,Touch.setCtl w ⟨rfl,rfl,rfl⟩,?_,rfl,?_,rfl⟩
    · rw [hself]
      refine ho.events ⟨rfl,rfl,rfl,rfl,rfl,rfl,rfl⟩ ?_ rfl ⟨rfl,rfl⟩ ?_
      · obtain ⟨first,stage,n⟩ := l
        cases hst
        rfl
      · have hk := ho.linked
        unfold Linked at hk
        rw [hst] at hk
        exact ⟨rfl,hk.2.1⟩
    · rw [hself]
      exact hc
  refine wp_bind (wp_ctl (wp_bind (wp_mono (wp_callback ob hs _) ?_)))
  rw [hs.touch.same.s]
  rintro ok w' h' _ hres
  refine wp_bind (wp_emit (fun hA => wp_pure (fun _ => ?_)))
  rcases hres with ht | ⟨hn,hg⟩
  · refine hs.turned ht rfl ⟨rfl,rfl⟩ ?_ (fun c ps l₁ hl₁ hk => ?_)
    · intro l₁ hl₁
      obtain ⟨first,stage,n⟩ := l₁
      cases hl₁
      rfl
    · unfold Linked at hk ⊢
      rw [hl₁] at hk
      exact hk
  · rcases ob.late with hall | ⟨hlate,_⟩
    · exact absurd (hall.assign p _) hn
    · have hquit := hg.quit
      rw [hs.touch.same.s] at hquit
      exact absurd hA (hlate _ _ _ hquit)

/-- A status from an open connection. -/
theorem Turned.handled {k : Callback} {heard first : Bool}
    (ht : Turned S k i (.opened heard) first w h w' h') (st : Status) : Handled S i st w' h' := by
  refine ⟨ht.working,ht.waits,?_⟩
  intro l hl
  obtain ⟨hs,_⟩ := ht.stage l hl
  rw [hs]
  exact ⟨rfl,fun _ => Stage.noConfusion⟩

/-- A message handed to a protocol that has taken the connection. -/
theorem wp_dispatchMessage (ob : Obeys A S) (hw : Working S w h i)
    (hl : life S.serviceSendsFirst (w.past i h) = some l)
    (hst : l.stage = .answered true ∧ l.sendsFirst = false ∨ ∃ heard, l.stage = .opened heard)
    (hc : (w.table.ctl i).flags.closing = true → w.ops i ≠ [])
    (hreads : (w.ops i).countP (fun p => p.op.isRead) = 0) {data : List UInt8}
    (hdue : Due data (w.past i h)) :
    wp A (S.dispatchMessage d i data) (fun st w' h' =>
      Resumed S i st w' h' ∨ st = .stopReading ∧ Good S w' h') w h := by
  obtain ⟨l₀,ho⟩ := hw.managed.conn i hw.inuse
  rw [ho.life] at hl
  cases hl
  have hres : ∀ {k : Callback} {st : Status} {first : Bool} {w' : World σ} {h' : List ConnEvent},
      k.body = some data → (∀ st, harmless k st = true → st = .stopReading) →
        Turned S k i (.opened true) first w h w' h' ∨ harmless k st = true ∧ Good S w' h' →
          Resumed S i st w' h' ∨ st = .stopReading ∧ Good S w' h' := by
    rintro k st first w' h' hk hharm (ht | ⟨hh,hg⟩)
    · refine .inl ⟨ht.handled st,ht.reads.trans hreads,fun _ => ?_⟩
      obtain ⟨es,hpast,hes⟩ := ht.past
      rw [hpast]
      exact (hdue.called hk).still hes
    · exact .inr ⟨hharm st hh,hg⟩
  have hstop : ∀ st, (∃ b, harmless (.recv b) st = true) ∨ (∃ b, harmless (.recvFirst b) st = true) →
      st = .stopReading := by
    intro st hh
    cases st with
    | stopReading => rfl
    | _ => rcases hh with ⟨_,hh⟩ | ⟨_,hh⟩ <;> cases hh
  refine wp_bind (wp_ctl ?_)
  obtain ⟨first,stage,n⟩ := l
  have hk := ho.linked
  cases hf : (w.table.ctl i).flags.firstMsg with
  | true =>
    have hopened : stage = .opened true := by
      rcases hst with ⟨rfl,_⟩ | ⟨heard,rfl⟩
      · have hk₂ := hk.2
        rw [hf] at hk₂
        cases hk₂
      · have hk₂ := hk.2
        rw [hf] at hk₂
        rw [← hk₂]
    subst hopened
    obtain ⟨p,hp⟩ := hk.proto rfl
    have hs : Starting S w h i (.recv data) ⟨first,.opened true,n⟩ w :=
      ⟨hw,Touch.refl i w,ho.moves (SameIo.refl _) rfl rfl hk (reading_of_none hreads)
        (hdue.called rfl).flows,rfl,hc,rfl⟩
    rw [if_pos rfl]
    refine wp_mono (wp_notify ob hs hp _ (fun hall => hall.recv p _ data)) ?_
    rintro st w' h' _ ⟨_,hr⟩
    exact hres rfl (fun st hh => hstop st (.inl ⟨_,hh⟩)) hr
  | false =>
    have hself := World.ctl_setCtl_self w i
      (fun c => { c with flags := { c.flags with firstMsg := true } })
    have hproto : ∃ p, (w.table.ctl i).proto = some p := by
      rcases hst with ⟨rfl,_⟩ | ⟨heard,rfl⟩
      · exact hk.proto rfl
      · exact hk.proto rfl
    obtain ⟨p,hp⟩ := hproto
    have hs : Starting S w h i (.recvFirst data) ⟨first,.opened true,n⟩
        (w.setCtl i (fun c => { c with flags := { c.flags with firstMsg := true } })) := by
      refine ⟨hw,Touch.setCtl w ⟨rfl,rfl,rfl⟩,?_,rfl,?_,rfl⟩
      · rw [hself]
        refine ho.moves ⟨rfl,rfl,rfl,rfl,rfl,rfl,rfl⟩ ?_ rfl ⟨by rw [hp]; rfl,rfl⟩
          (reading_of_none hreads) (hdue.called rfl).flows
        rcases hst with ⟨rfl,rfl⟩ | ⟨heard,rfl⟩
        · rfl
        · have hk₂ := hk.2
          rw [hf] at hk₂
          rw [← hk₂]
          rfl
      · rw [hself]
        exact hc
    rw [if_neg Bool.false_ne_true]
    refine wp_bind (wp_setCtl (wp_mono (wp_notify (p := p) ob hs ?_ _ ?_) ?_))
    · rw [hself]
      exact hp
    · exact fun hall => hall.recvFirst p _ data
    · rintro st w' h' _ ⟨_,hr⟩
      exact hres rfl (fun st hh => hstop st (.inr ⟨_,hh⟩)) hr

/-- The protocol that refuses a connection leaves it to be closed. -/
theorem Turned.refused {k : Callback} {first : Bool}
    (ht : Turned S k i (.answered false) first w h w' h')
    (hreads : (w.ops i).countP (fun p => p.op.isRead) = 0) : Resumed S i .abort w' h' := by
  refine ⟨⟨ht.working,ht.waits,?_⟩,ht.reads.trans hreads,nofun⟩
  intro l hl
  obtain ⟨hs,_⟩ := ht.stage l hl
  rw [hs]
  exact ⟨rfl,fun hst => hst.elim Status.noConfusion Status.noConfusion⟩

/-- A message: a fresh connection first gets a protocol, if there is one for it. -/
theorem wp_dispatchOnRecvMessage (ob : Obeys A S) (hw : Working S w h i)
    (hl : life S.serviceSendsFirst (w.past i h) = some l)
    (hst : l.stage = .fresh ∧ l.sendsFirst = false ∨ ∃ heard, l.stage = .opened heard)
    (hc : (w.table.ctl i).flags.closing = true → w.ops i ≠ [])
    (hreads : (w.ops i).countP (fun p => p.op.isRead) = 0) {data : List UInt8}
    (hdue : Due data (w.past i h)) :
    wp A (S.internalDispatchOnRecvMessage d i data) (fun st w' h' =>
      Resumed S i st w' h' ∨ st = .stopReading ∧ Good S w' h') w h := by
  obtain ⟨l₀,ho⟩ := hw.managed.conn i hw.inuse
  rw [ho.life] at hl
  cases hl
  refine wp_bind (wp_ctl ?_)
  rcases hst with ⟨hfresh,hfirst⟩ | ⟨heard,hopen⟩
  · have hk := ho.linked
    unfold Linked at hk
    rw [hfresh] at hk
    obtain ⟨hproto,_,_,_,svc,hudata,_⟩ := hk
    rw [hproto, hudata]
    dsimp only
    cases S.serviceSelectProtocol svc data with
    | none =>
      refine wp_pure (fun _ => .inl ⟨⟨hw,hc,?_⟩,hreads,nofun⟩)
      intro l' hl'
      rw [ho.life] at hl'
      cases hl'
      rw [hfresh, hfirst]
      exact ⟨rfl,fun hst => hst.elim Status.noConfusion Status.noConfusion⟩
    | some p =>
      refine wp_bind (wp_setCtl (wp_bind (wp_mono (wp_onAssign ob hw ho.life hfresh hc p) ?_)))
      intro ok w' h' _ ht
      cases ok with
      | false => exact wp_pure (fun _ => .inl (ht.refused hreads))
      | true =>
        obtain ⟨es,hpast,hes⟩ := ht.past
        obtain ⟨l',ho'⟩ := ht.working.managed.conn i ht.working.inuse
        have hst' := ht.stage l' ho'.life
        refine wp_dispatchMessage ob ht.working ho'.life (.inl ⟨hst'.1,hst'.2.trans hfirst⟩)
          ht.waits (ht.reads.trans hreads) ?_
        rw [hpast]
        exact (hdue.still ⟨rfl,rfl⟩).still hes
  · obtain ⟨p,hp⟩ := ho.linked.proto (by rw [hopen]; rfl)
    rw [hp]
    exact wp_dispatchMessage ob hw ho.life (.inr ⟨heard,hopen⟩) hc hreads hdue

/-- The greeting of a service that sends first. -/
theorem wp_dispatchOnConnect (ob : Obeys A S) (hw : Working S w h i)
    (hl : life S.serviceSendsFirst (w.past i h) = some l) (hst : l.stage = .fresh)
    (hc : (w.table.ctl i).flags.closing = true → w.ops i ≠ [])
    (hreads : (w.ops i).countP (fun p => p.op.isRead) = 0) (ha : Aligned (w.past i h)) :
    wp A (S.internalDispatchOnConnect d i) (fun st w' h' =>
      (st = .stopReading → A.mayCrash) ∧ Resumed S i st w' h') w h := by
  obtain ⟨l₀,ho⟩ := hw.managed.conn i hw.inuse
  rw [ho.life] at hl
  cases hl
  have hk := ho.linked
  unfold Linked at hk
  rw [hst] at hk
  obtain ⟨_,_,_,_,svc,hudata,hfirst⟩ := hk
  refine wp_bind (wp_ctl ?_)
  rw [hudata]
  dsimp only
  cases hs : S.serviceSendsFirst svc with
  | false =>
    rw [if_neg Bool.false_ne_true]
    refine wp_pure (fun _ => ⟨nofun,⟨hw,hc,?_⟩,hreads,fun _ => ha⟩)
    intro l' hl'
    rw [ho.life] at hl'
    cases hl'
    rw [hst, hfirst, hs]
    exact ⟨rfl,fun _ => Stage.noConfusion⟩
  | true =>
    rw [if_pos rfl]
    refine wp_bind (wp_setCtl (wp_bind (wp_mono (wp_onAssign ob hw ho.life hst hc _) ?_)))
    intro ok w₁ h₁ _ ht
    cases ok with
    | false => exact wp_pure (fun _ => ⟨nofun,ht.refused hreads⟩)
    | true =>
      obtain ⟨es,hpast,hes⟩ := ht.past
      have ha₁ : Aligned (w₁.past i h₁) := by
        rw [hpast]
        exact (Aligned.still ha ⟨rfl,rfl⟩).still hes
      obtain ⟨l₁,ho₁⟩ := ht.working.managed.conn i ht.working.inuse
      obtain ⟨hs₁,hf₁⟩ := ht.stage l₁ ho₁.life
      have hk₁ := ho₁.linked
      obtain ⟨p,hp⟩ := hk₁.proto (by rw [hs₁]; rfl)
      have hstart : Starting S w₁ h₁ i .connect { l₁ with stage := .opened false } w₁ := by
        refine ⟨ht.working,Touch.refl i w₁,?_,rfl,ht.waits,rfl⟩
        refine ho₁.events (SameIo.refl _) ?_ rfl ⟨rfl,rfl⟩ ?_
        · obtain ⟨first,stage,n⟩ := l₁
          cases hs₁
          cases hf₁.trans (hfirst.trans hs)
          rfl
        · unfold Linked at hk₁
          rw [hs₁] at hk₁
          exact hk₁
      refine wp_mono (wp_notify ob hstart hp _ (fun hall => hall.connect p _)) ?_
      rintro st w₂ h₂ _ ⟨hstop,ht₂ | ⟨hh,_⟩⟩
      · refine ⟨fun he => (hstop he).resolve_left Bool.false_ne_true,ht₂.handled st,
          ht₂.reads.trans (ht.reads.trans hreads),fun _ => ?_⟩
        obtain ⟨es₂,hpast₂,hes₂⟩ := ht₂.past
        rw [hpast₂]
        exact (Aligned.still ha₁ ⟨rfl,rfl⟩).still hes₂
      · cases st <;> cases hh

/-- A write has succeeded. -/
theorem wp_dispatchOnWrite (ob : Obeys A S) (hw : Working S w h i)
    (hl : life S.serviceSendsFirst (w.past i h) = some l) {heard : Bool}
    (hst : l.stage = .opened heard)
    (hc : (w.table.ctl i).flags.closing = true → w.ops i ≠ []) :
    wp A (S.internalDispatchOnWrite d i) (fun st w' h' => (st = .stopReading → A.mayCrash) ∧
      (Handled S i st w' h' ∨ st = .ok ∧ Good S w' h')) w h := by
  obtain ⟨l₀,ho⟩ := hw.managed.conn i hw.inuse
  rw [ho.life] at hl
  cases hl
  obtain ⟨p,hp⟩ := ho.linked.proto (by rw [hst]; rfl)
  have hs : Starting S w h i .write l w := by
    refine ⟨hw,Touch.refl i w,ho.events (SameIo.refl _) ?_ rfl ⟨rfl,rfl⟩ ho.linked,?_,hc,rfl⟩
    · obtain ⟨first,stage,n⟩ := l
      cases hst
      rfl
    · rw [hst]
      rfl
  refine wp_mono (wp_notify ob hs hp _ (fun hall => hall.write p _)) ?_
  rintro st w' h' _ ⟨hstop,ht | ⟨hh,hg⟩⟩
  · rw [hst] at ht
    exact ⟨fun he => (hstop he).resolve_left Bool.false_ne_true,.inl (ht.handled st)⟩
  · refine ⟨fun he => (hstop he).resolve_left Bool.false_ne_true,.inr ⟨?_,hg⟩⟩
    cases st <;> first | rfl | cases hh

end Dispatch

end Kaplar.Server
