import Kaplar.Server.ConnClose

/-! # Calls of a protocol to its own connection

Whatever a callback or a server task does, its connection either stays as it was up to
writes, userdata and a mark that it is closing, or it is closed and its uid is stale.
-/
namespace Kaplar.Server
open Program
variable {σ α : Type} {S : Services σ} {A : Rely ConnEvent} {w w' w'' : World σ}
  {h h' h'' : List ConnEvent} {i : ℕ}

/-- The events of the calls themselves. -/
def ConnEvent.aside : ConnEvent → Bool
  | .asked _ | .started _ _ | .cancelled _ _ => true
  | _ => false

def Aside (c : ConnCtl) (es : List ConnEvent) : Prop := ∀ e ∈ es, e.inside c ∧ e.aside = true

/-- A stage in which the protocol may call. -/
def Stage.open : Stage → Bool
  | .asking | .answered false | .opened _ => true
  | _ => false

theorem Stage.talking_of_open {stage : Stage} (h : stage.open = true) : stage.talking = true := by
  cases stage with
  | asking => rfl
  | answered ok => rfl
  | opened heard => rfl
  | _ => cases h

section Aside
variable {c : ConnCtl} {es fs : List ConnEvent} {l l' : Life}

theorem aside_nil : Aside c [] := fun _ he => absurd he List.not_mem_nil

theorem Aside.append (he : Aside c es) (hf : Aside c fs) : Aside c (es ++ fs) := by
  intro e hm
  rcases List.mem_append.mp hm with hm | hm
  · exact he e hm
  · exact hf e hm

theorem aside_singleton {e : ConnEvent} (hi : e.inside c) (ha : e.aside = true) : Aside c [e] := by
  intro e' hm
  rw [List.mem_singleton.mp hm]
  exact ⟨hi,ha⟩

theorem Aside.congr {c' : ConnCtl} (he : Aside c es) (hc : SameConn c c') : Aside c' es := by
  intro e hm
  obtain ⟨hi,ha⟩ := he e hm
  refine ⟨?_,ha⟩
  cases e with
  | asked s => exact Eq.trans hi hc.s.symm
  | started s op => exact Eq.trans hi hc.s.symm
  | cancelled s all => exact Eq.trans hi hc.s.symm
  | _ => cases ha

theorem Aside.still (he : Aside c es) : Still es := by
  induction es with
  | nil => exact ⟨rfl,rfl⟩
  | cons e es ih =>
    obtain ⟨hb,hr⟩ := ih (fun e' hm => he e' (List.mem_cons_of_mem e hm))
    have ha := (he e List.mem_cons_self).2
    cases e with
    | asked s => exact ⟨hb,hr⟩
    | started s op => exact ⟨hb,hr⟩
    | cancelled s all => exact ⟨hb,hr⟩
    | _ => cases ha

/-- Calls do not change the stage. -/
theorem Aside.stage {sendsFirst : ℕ → Bool} (he : Aside c es)
    (hl : es.foldlM (Life.next sendsFirst) l = some l') :
    l'.stage = l.stage ∧ l'.sendsFirst = l.sendsFirst := by
  induction es generalizing l with
  | nil =>
    cases hl
    exact ⟨rfl,rfl⟩
  | cons e es ih =>
    obtain ⟨l₁,hn,hl⟩ := Option.bind_eq_some_iff.mp hl
    have hrest := ih (fun e' hm => he e' (List.mem_cons_of_mem e hm)) hl
    have ha := (he e List.mem_cons_self).2
    cases e with
    | asked s =>
      cases hn
      exact hrest
    | started s op =>
      simp only [Life.next, Option.ite_none_right_eq_some, Option.some.injEq] at hn
      obtain ⟨_,rfl⟩ := hn
      exact hrest
    | cancelled s all =>
      simp only [Life.next, Option.ite_none_right_eq_some, Option.some.injEq] at hn
      obtain ⟨_,rfl⟩ := hn
      exact hrest
    | _ => cases ha

end Aside

/-- The calls of one callback or task on a connection that stays open. -/
structure Talked (S : Services σ) (i : ℕ) (w : World σ) (h : List ConnEvent) (w' : World σ)
    (h' : List ConnEvent) : Prop where
  working : Working S w' h' i
  touch : Touch i w w'
  trace : ∃ es, h' = h ++ es ∧ Aside (w.table.ctl i) es
  proto : (w'.table.ctl i).proto = (w.table.ctl i).proto
  firstMsg : (w'.table.ctl i).flags.firstMsg = (w.table.ctl i).flags.firstMsg
  reads : (w'.ops i).countP (fun p => p.op.isRead) = (w.ops i).countP (fun p => p.op.isRead)
  waits : (w'.table.ctl i).flags.closing = true → w'.ops i ≠ []
  closing : (w.table.ctl i).flags.closing = true → (w'.table.ctl i).flags.closing = true

/-- A connection whose protocol may call. -/
structure Ready (S : Services σ) (w : World σ) (h : List ConnEvent) (i : ℕ) : Prop where
  working : Working S w h i
  waits : (w.table.ctl i).flags.closing = true → w.ops i ≠ []
  stage : ∀ l, life S.serviceSendsFirst (w.past i h) = some l → l.stage.open = true

theorem Ready.refl (hr : Ready S w h i) : Talked S i w h w h :=
  ⟨hr.working,Touch.refl i w,⟨[],(List.append_nil h).symm,aside_nil⟩,rfl,rfl,rfl,hr.waits,id⟩

theorem Talked.trans (ht : Talked S i w h w' h') (ht' : Talked S i w' h' w'' h'') :
    Talked S i w h w'' h'' := by
  obtain ⟨es,rfl,he⟩ := ht.trace
  obtain ⟨fs,rfl,hf⟩ := ht'.trace
  refine ⟨ht'.working,ht.touch.trans ht'.touch,⟨es ++ fs,List.append_assoc ..,?_⟩,
    ht'.proto.trans ht.proto,ht'.firstMsg.trans ht.firstMsg,ht'.reads.trans ht.reads,ht'.waits,
    fun hc => ht'.closing (ht.closing hc)⟩
  have hsame := ht.touch.same
  exact he.append (hf.congr ⟨hsame.uid.symm,hsame.s.symm,hsame.inuse.symm⟩)

/-- The past of a connection after calls, and its life. -/
theorem Talked.past (ht : Talked S i w h w' h') :
    ∃ es, w'.past i h' = w.past i h ++ es ∧ Aside (w.table.ctl i) es := by
  obtain ⟨es,rfl,he⟩ := ht.trace
  exact ⟨es,past_same ht.touch (fun e hm => (he e hm).1),he⟩

theorem Talked.stage (ht : Talked S i w h w' h') {l l' : Life}
    (hl : life S.serviceSendsFirst (w.past i h) = some l)
    (hl' : life S.serviceSendsFirst (w'.past i h') = some l') :
    l'.stage = l.stage ∧ l'.sendsFirst = l.sendsFirst := by
  obtain ⟨es,hp,he⟩ := ht.past
  rw [hp, life_append, hl] at hl'
  exact he.stage hl'

theorem Talked.ready (ht : Talked S i w h w' h') (hr : Ready S w h i) : Ready S w' h' i := by
  refine ⟨ht.working,ht.waits,?_⟩
  intro l' hl'
  obtain ⟨l,ho⟩ := hr.working.managed.conn i hr.working.inuse
  rw [(ht.stage ho.life hl').1]
  exact hr.stage l ho.life

/-- One call: what it does to the slot agrees with the events it emits. -/
theorem Ready.talk (hr : Ready S w h i) (ht : Touch i w w') {es : List ConnEvent}
    (he : Aside (w.table.ctl i) es) (hp : (w'.table.ctl i).proto = (w.table.ctl i).proto)
    (hf : (w'.table.ctl i).flags.firstMsg = (w.table.ctl i).flags.firstMsg)
    (hreads : (w'.ops i).countP (fun p => p.op.isRead) =
      (w.ops i).countP (fun p => p.op.isRead))
    (hwaits : (w'.table.ctl i).flags.closing = true → w'.ops i ≠ [])
    (hcl : (w.table.ctl i).flags.closing = true → (w'.table.ctl i).flags.closing = true)
    (hc : ∀ l, l.stage.talking = true → ConnOk S (w.table.ctl i) (w.ops i) (w.past i h) l →
      ∃ l', ConnOk S (w'.table.ctl i) (w'.ops i) (w.past i h ++ es) l') :
    Talked S i w h w' (h ++ es) := by
  obtain ⟨l,ho⟩ := hr.working.managed.conn i hr.working.inuse
  have hopen := Stage.talking_of_open (hr.stage l ho.life)
  exact ⟨hr.working.touch ht (fun e hm => (he e hm).1) (hc l hopen ho),ht,⟨es,rfl,he⟩,hp,hf,
    hreads,hwaits,hcl⟩

/-- A call without an event. -/
theorem Ready.quiet (hr : Ready S w h i) (ht : Touch i w w')
    (hp : (w'.table.ctl i).proto = (w.table.ctl i).proto)
    (hf : (w'.table.ctl i).flags.firstMsg = (w.table.ctl i).flags.firstMsg)
    (hreads : (w'.ops i).countP (fun p => p.op.isRead) =
      (w.ops i).countP (fun p => p.op.isRead))
    (hwaits : (w'.table.ctl i).flags.closing = true → w'.ops i ≠ [])
    (hcl : (w.table.ctl i).flags.closing = true → (w'.table.ctl i).flags.closing = true)
    (hc : ∀ l, l.stage.talking = true → ConnOk S (w.table.ctl i) (w.ops i) (w.past i h) l →
      ConnOk S (w'.table.ctl i) (w'.ops i) (w.past i h) l) : Talked S i w h w' h := by
  have htalk := hr.talk ht aside_nil hp hf hreads hwaits hcl (fun l hl ho => ⟨l,?_⟩)
  · rwa [List.append_nil] at htalk
  · rw [List.append_nil]
    exact hc l hl ho

/-! ## The calls one by one -/

section Calls
variable {uid : UInt32} {close : ℕ → Bool → Mgr σ Unit}

/-- The uid of a slot in use finds it. -/
theorem Working.found (hw : Working S w h i) : (slotOf (w.table.ctl i).uid).toNat = i := by
  rw [(hw.managed.slot hw.inuse).1, (hw.managed.slot hw.inuse).2]

theorem SameIo.refl (c : ConnCtl) : SameIo c c := ⟨rfl,rfl,rfl,rfl,rfl,rfl,rfl⟩

theorem ConnOk.asked {c : ConnCtl} {ps : List Pending} {past : List ConnEvent} {l : Life}
    (ho : ConnOk S c ps past l) : ConnOk S c ps (past ++ [.asked c.s]) l :=
  ho.events (SameIo.refl c) rfl rfl ⟨rfl,rfl⟩ ho.linked

theorem Ready.asked (hr : Ready S w h i) :
    Talked S i w h w (h ++ [.asked (w.table.ctl i).s]) :=
  hr.talk (Touch.refl i w) (aside_singleton rfl rfl) rfl rfl rfl hr.waits id
    (fun l _ ho => ⟨l,ho.asked⟩)

theorem Ready.setUserdata (hr : Ready S w h i) (v : Udata) :
    Talked S i w h (w.setCtl i (fun c => { c with udata := v })) h := by
  have hself := World.ctl_setCtl_self w i (fun c => { c with udata := v })
  refine hr.quiet (Touch.setCtl w ⟨rfl,rfl,rfl⟩) (by rw [hself]) (by rw [hself]) rfl
    (by rw [hself]; exact hr.waits) (by rw [hself]; exact id) ?_
  intro l ht ho
  rw [hself]
  exact ho.same ⟨rfl,rfl,rfl,rfl,rfl,rfl,rfl⟩ (ho.linked.talk ht rfl rfl rfl)

/-- With no output in progress no write waits. -/
theorem ConnOk.no_write {c : ConnCtl} {ps : List Pending} {past : List ConnEvent} {l : Life}
    (ho : ConnOk S c ps past l) (hp : c.flags.outputInProgress = false) :
    ps.countP (fun p => p.op.isWrite) = 0 := by
  refine List.countP_eq_zero.mpr ?_
  intro p hm hw
  rw [ho.inProgress p hm hw] at hp
  cases hp

theorem Ready.setOutput (hr : Ready S w h i) (hp : (w.table.ctl i).flags.outputInProgress = false)
    (data : ℕ) (len : UInt32) :
    Talked S i w h (w.setCtl i (fun c => { c with outputData := data, outputLen := len })) h := by
  have hself := World.ctl_setCtl_self w i (fun c => { c with outputData := data, outputLen := len })
  refine hr.quiet (Touch.setCtl w ⟨rfl,rfl,rfl⟩) (by rw [hself]) (by rw [hself]) rfl
    (by rw [hself]; exact hr.waits) (by rw [hself]; exact id) ?_
  intro l ht ho
  rw [hself]
  exact ho.setOutput (ho.no_write hp) ht data len

/-- The protocols' own state and the answers to come are no business of the manager. -/
theorem Ready.idle (hr : Ready S w h i) (x : List Bool) (q : σ) :
    Talked S i w h { w with starts := x, priv := q } h :=
  hr.quiet ⟨SameConn.refl _,fun _ _ => ⟨rfl,rfl⟩,rfl,rfl,rfl⟩ rfl rfl rfl hr.waits id
    (fun _ _ ho => ho)

theorem Ready.write (hr : Ready S w h i) (hp : (w.table.ctl i).flags.outputInProgress = false)
    {op : Op} (hop : op = .write (w.table.ctl i).outputData (w.table.ctl i).outputLen)
    (x : List Bool) : Talked S i w h ((w.begin i op x).setCtl i ConnCtl.writing)
      (h ++ [.started (w.table.ctl i).s op]) := by
  have hself := ctl_begin w i op x ConnCtl.writing
  have hops := ops_begin w i op x ConnCtl.writing
  refine hr.talk (Touch.begin w _ x ⟨rfl,rfl,rfl⟩) (aside_singleton rfl rfl) (by rw [hself]; rfl)
    (by rw [hself]; rfl) ?_ ?_ ?_ ?_
  · rw [hops, List.countP_append, hop]
    rfl
  · intro _
    rw [hops]
    exact List.append_ne_nil_of_right_ne_nil _ (List.cons_ne_nil _ _)
  · rw [hself]
    exact id
  · intro l ht ho
    rw [hself, hops]
    exact ⟨_,ho.startWrite hop ht (ho.no_write hp)⟩

theorem wp_connectionSend (hr : Ready S w h i) (data : ℕ) (len : UInt32) :
    wp A (connectionSend (w.table.ctl i).uid data len) (fun _ w' h' => Talked S i w h w' h')
      w h := by
  unfold connectionSend
  rw [hr.working.found]
  refine wp_bind (wp_ctl ?_)
  rw [if_pos rfl]
  cases hp : (w.table.ctl i).flags.outputInProgress with
  | true => exact wp_pure (fun _ => hr.refl)
  | false =>
    refine wp_bind (wp_setCtl ?_)
    have hset := hr.setOutput hp data len
    have hr₁ := hset.ready hr
    refine wp_startWrite ?_ ?_
    · exact fun x => hset.trans (hr₁.idle x _)
    · intro x
      refine hset.trans (hr₁.write ?_ rfl x)
      rw [World.ctl_setCtl_self]
      exact hp

/-- A connection that its own protocol has closed. -/
structure Parted (S : Services σ) (w : World σ) (h : List ConnEvent) (i : ℕ) (w' : World σ)
    (h' : List ConnEvent) : Prop extends Gone S w h i w' h' where
  quit : Quit (w.table.ctl i).s h'

theorem Talked.parted (ht : Talked S i w h w' h') (hg : Parted S w' h' i w'' h'') :
    Parted S w h i w'' h'' := by
  refine ⟨⟨hg.good,?_,?_,?_⟩,?_⟩
  · rw [← ht.touch.same.uid]
    exact hg.stale
  · rw [← ht.touch.same.s]
    exact hg.unowned
  · rw [← ht.touch.same.s]
    exact hg.known
  · rw [← ht.touch.same.s]
    exact hg.quit

/-- With nothing waiting in its slot a connection has nothing outstanding. -/
theorem Working.idle (hw : Working S w h i) (hops : w.ops i = []) : Idle (w.past i h) := by
  obtain ⟨l,ho⟩ := hw.managed.conn i hw.inuse
  have hcount := life_count ho.life
  rw [ho.outstanding, hops] at hcount
  exact hcount

theorem wp_connectionClose (hq : QuietClose A S) (hr : Ready S w h i) (d : ℕ) (abort : Bool) :
    wp A (connectionClose (S.internalStartCloseOperation (d + 1)) (w.table.ctl i).uid abort)
      (fun _ w' h' => Talked S i w h w' h' ∨ Parted S w h i w' h') w h := by
  unfold connectionClose
  rw [hr.working.found]
  refine wp_bind (wp_ctl ?_)
  rw [if_pos rfl]
  refine wp_bind (wp_emit (fun _ => ?_))
  have hasked := hr.asked
  have hr₁ := hasked.ready hr
  have hne : ∀ l, life S.serviceSendsFirst (w.past i (h ++ [.asked (w.table.ctl i).s])) = some l →
      l.stage ≠ .answered true := by
    intro l hl he
    have hs := hr₁.stage l hl
    rw [he] at hs
    cases hs
  have hclose : w.ops i = [] → wp A (S.internalCloseOperation (S.internalStartCloseOperation d) i)
      (fun _ w' h' => Parted S w (h ++ [.asked (w.table.ctl i).s]) i w' h') w
      (h ++ [.asked (w.table.ctl i).s]) := by
    intro hops
    refine wp_mono (wp_grows (wp_closeOperation hq hr₁.working hops hne _)) ?_
    rintro _ w' h' _ ⟨⟨es,rfl⟩,hg⟩
    exact ⟨hg,h,es,by rw [List.append_assoc]; rfl,hr.working.idle hops⟩
  refine wp_mono (wp_startClose hr₁.working d hclose abort) ?_
  · rintro _ w' h' _ (hg | ⟨hops,rfl,rfl⟩)
    · exact .inr (hasked.parted hg)
    · left
      refine hasked.trans (hr₁.talk (Touch.close w i) (aside_singleton rfl rfl) ?_ ?_ rfl ?_ ?_ ?_)
      · rw [ctl_close]
      · rw [ctl_close]
      · exact fun _ => hops
      · rw [ctl_close]
        exact fun _ => rfl
      · intro l _ ho
        refine ⟨l,?_⟩
        rw [ctl_close]
        exact ho.cancel abort

/-! ## Whole scripts -/

/-- The calls with a stale uid do nothing. -/
theorem wp_exec_stale (hF : ∀ h s, A.holds (h ++ [.faulted s]) → A.mayCrash)
    (hu : (w.table.ctl (slotOf uid).toNat).uid ≠ uid) (script : Script σ α) :
    wp A (script.exec close uid) (fun _ w' h' => h' = h ∧ ∃ q, w' = { w with priv := q }) w h := by
  induction script generalizing w with
  | ret a => exact wp_pure (fun _ => ⟨rfl,w.priv,rfl⟩)
  | fault => exact wp_bind (wp_ctl (wp_bind (wp_emit (fun hA => wp_crash (hF _ _ hA)))))
  | load k ih => exact wp_bind (wp_get (ih w.priv hu))
  | store p k ih => exact wp_bind (wp_update (ih (w := { w with priv := p }) hu))
  | userdata k ih =>
    refine wp_bind (wp_bind (wp_ctl ?_))
    rw [if_neg hu]
    exact wp_pure (fun _ => ih none hu)
  | setUserdata v k ih =>
    refine wp_bind (wp_bind (wp_ctl ?_))
    rw [if_neg hu]
    exact wp_pure (fun _ => ih hu)
  | send data len k ih =>
    refine wp_bind (wp_bind (wp_ctl ?_))
    rw [if_neg hu]
    exact wp_pure (fun _ => ih false hu)
  | close abort k ih =>
    refine wp_bind (wp_bind (wp_ctl ?_))
    rw [if_neg hu]
    exact wp_pure (fun _ => ih hu)

end Calls

theorem Managed.congr (hm : Managed S w h) (ht : w'.table = w.table) (ho : w'.ops = w.ops)
    (hn : w'.nextSocket = w.nextSocket) : Managed S w' h := by
  obtain ⟨t,ops,x,n,p⟩ := w'
  cases ht
  cases ho
  cases hn
  exact ⟨hm.kept,hm.conn,hm.idle,hm.occupied,hm.sockets,hm.distinct,hm.retired,hm.future,hm.named⟩

theorem Good.congr (hg : Good S w h) (ht : w'.table = w.table) (ho : w'.ops = w.ops)
    (hn : w'.nextSocket = w.nextSocket) : Good S w' h := by
  refine ⟨hg.managed.congr ht ho hn,?_⟩
  intro j hj l hl
  rw [World.inuse, ht] at hj
  rw [World.past, ht] at hl
  rw [ht, ho]
  exact hg.settled j hj l hl

theorem Parted.congr (hg : Parted S w h i w' h') (q : σ) :
    Parted S w h i { w' with priv := q } h' :=
  ⟨⟨hg.good.congr rfl rfl rfl,hg.stale,hg.unowned,hg.known⟩,hg.quit⟩

/-- A script that closes nothing. -/
def Script.Closeless : Script σ α → Prop
  | .ret _ | .fault => True
  | .load k => ∀ p, (k p).Closeless
  | .userdata k => ∀ v, (k v).Closeless
  | .send _ _ k => ∀ ok, (k ok).Closeless
  | .store _ k | .setUserdata _ k => k.Closeless
  | .close _ _ => False

/-- A script that only looks at userdata and at what belongs to the protocols. -/
def Script.Plain : Script σ α → Prop
  | .ret _ | .fault => True
  | .load k => ∀ p, (k p).Plain
  | .userdata k => ∀ v, (k v).Plain
  | .store _ k | .setUserdata _ k => k.Plain
  | .send _ _ _ | .close _ _ => False

/-- What comes after a call that leaves the connection open goes on from there. -/
theorem Talked.wp (ht : Talked S i w h w' h') {x : Mgr σ α} {P P' : Prop} (hP : P' → P)
    (hx : wp A x (fun _ w₁ h₁ => Talked S i w' h' w₁ h₁ ∨ P' ∧ Parted S w' h' i w₁ h₁) w' h') :
    wp A x (fun _ w₁ h₁ => Talked S i w h w₁ h₁ ∨ P ∧ Parted S w h i w₁ h₁) w' h' := by
  refine wp_mono hx ?_
  rintro _ w₁ h₁ _ (ht' | ⟨hp,hg⟩)
  · exact .inl (ht.trans ht')
  · exact .inr ⟨hP hp,ht.parted hg⟩

/-- A script leaves its connection open, up to what `Talked` allows, or closed and gone. -/
theorem wp_exec (hF : ∀ h s, A.holds (h ++ [.faulted s]) → A.mayCrash) (hq : QuietClose A S)
    (hr : Ready S w h i) (d : ℕ) (script : Script σ α) :
    wp A (script.exec (S.internalStartCloseOperation (d + 1)) (w.table.ctl i).uid)
      (fun _ w' h' => Talked S i w h w' h' ∨ ¬ script.Closeless ∧ Parted S w h i w' h') w h := by
  generalize hu : (w.table.ctl i).uid = uid
  induction script generalizing w h with
  | ret a => exact wp_pure (fun _ => .inl hr.refl)
  | fault => exact wp_bind (wp_ctl (wp_bind (wp_emit (fun hA => wp_crash (hF _ _ hA)))))
  | load k ih =>
    exact wp_bind (wp_get (hr.refl.wp (fun hn hc => hn (hc w.priv)) (ih w.priv hr hu)))
  | store p k ih =>
    have ht := hr.idle w.starts p
    exact wp_bind (wp_update (ht.wp id (ih (ht.ready hr) hu)))
  | userdata k ih =>
    subst hu
    refine wp_bind (wp_bind (wp_ctl ?_))
    rw [hr.working.found, if_pos rfl]
    exact wp_pure (fun _ => hr.refl.wp (fun hn hc => hn (hc _)) (ih _ hr rfl))
  | setUserdata v k ih =>
    subst hu
    refine wp_bind (wp_bind (wp_ctl ?_))
    rw [hr.working.found, if_pos rfl]
    have ht := hr.setUserdata v
    exact wp_setCtl (ht.wp id (ih (ht.ready hr) ht.touch.same.uid))
  | send data len k ih =>
    subst hu
    refine wp_bind (wp_mono (wp_connectionSend hr data len) ?_)
    intro ok w₁ h₁ _ ht
    exact ht.wp (fun hn hc => hn (hc ok)) (ih ok (ht.ready hr) ht.touch.same.uid)
  | close abort k ih =>
    subst hu
    have hnot : ¬ (Script.close abort k).Closeless := id
    refine wp_bind (wp_mono (wp_connectionClose hq hr d abort) ?_)
    rintro _ w₁ h₁ _ (ht | hg)
    · exact ht.wp (fun _ => hnot) (ih (ht.ready hr) ht.touch.same.uid)
    · have hstale : (w₁.table.ctl (slotOf (w.table.ctl i).uid).toNat).uid ≠
          (w.table.ctl i).uid := by
        rw [hr.working.found]
        exact hg.stale
      refine wp_mono (wp_exec_stale hF hstale k) ?_
      rintro _ w₂ h₂ _ ⟨rfl,q,rfl⟩
      exact .inr ⟨hnot,hg.congr q⟩

/-- A plain script, or one whose calls are relied on to start and close nothing. -/
theorem wp_exec_plain {uid : UInt32} (hF : ∀ h s, A.holds (h ++ [.faulted s]) → A.mayCrash)
    (hs : (slotOf uid).toNat = i) (hu : (w.table.ctl i).uid = uid)
    {close : ℕ → Bool → Mgr σ Unit} {script : Script σ α}
    (hp : script.Plain ∨ ¬ A.holds (h ++ [.asked (w.table.ctl i).s]) ∧
      ∀ op, ¬ A.holds (h ++ [.started (w.table.ctl i).s op])) :
    wp A (script.exec close uid)
      (fun _ w' h' => h' = h ∧ Touch i w w' ∧ w'.ops i = w.ops i) w h := by
  -- what is shown of the rest of a script, from a world that a call has left
  have hthen : ∀ {w w₁ : World σ} {x : Mgr σ α}, Touch i w w₁ → w₁.ops i = w.ops i →
      wp A x (fun _ w' h' => h' = h ∧ Touch i w₁ w' ∧ w'.ops i = w₁.ops i) w₁ h →
        wp A x (fun _ w' h' => h' = h ∧ Touch i w w' ∧ w'.ops i = w.ops i) w₁ h := by
    intro w w₁ x ht ho hx
    refine wp_mono hx ?_
    rintro _ w' h' _ ⟨rfl,ht',ho'⟩
    exact ⟨rfl,ht.trans ht',ho'.trans ho⟩
  induction script generalizing w with
  | ret a => exact wp_pure (fun _ => ⟨rfl,Touch.refl i w,rfl⟩)
  | fault => exact wp_bind (wp_ctl (wp_bind (wp_emit (fun hA => wp_crash (hF _ _ hA)))))
  | load k ih => exact wp_bind (wp_get (ih w.priv hu (hp.imp_left (fun h => h w.priv))))
  | store p k ih =>
    exact wp_bind (wp_update (hthen ⟨SameConn.refl _,fun _ _ => ⟨rfl,rfl⟩,rfl,rfl,rfl⟩ rfl
      (ih (w := { w with priv := p }) hu hp)))
  | userdata k ih =>
    refine wp_bind (wp_bind (wp_ctl ?_))
    rw [hs, if_pos hu]
    exact wp_pure (fun _ => ih _ hu (hp.imp_left (fun h => h _)))
  | setUserdata v k ih =>
    refine wp_bind (wp_bind (wp_ctl ?_))
    rw [hs, if_pos hu]
    have ht : Touch i w (w.setCtl i (fun c => { c with udata := v })) :=
      Touch.setCtl w ⟨rfl,rfl,rfl⟩
    refine wp_setCtl (hthen ht rfl (ih (ht.same.uid.trans hu) ?_))
    rw [ht.same.s]
    exact hp
  | send data len k ih =>
    obtain ⟨_,hstart⟩ := hp.resolve_left id
    refine wp_bind (wp_bind (wp_ctl ?_))
    rw [hs, if_pos hu]
    cases (w.table.ctl i).flags.outputInProgress with
    | true => exact wp_pure (fun _ => ih false hu (.inr (hp.resolve_left id)))
    | false =>
      have ht : Touch i w
          (w.setCtl i (fun c => { c with outputData := data, outputLen := len })) :=
        Touch.setCtl w ⟨rfl,rfl,rfl⟩
      have hp' := hp.resolve_left id
      rw [← ht.same.s] at hp' hstart
      refine wp_bind (wp_setCtl (wp_startWrite ?_ ?_))
      · intro x
        exact hthen (ht.trans (Touch.reset _ i x)) rfl (ih false (ht.same.uid.trans hu) (.inr hp'))
      · exact fun x => wp_absurd (hstart _)
  | close abort k ih =>
    refine wp_bind (wp_bind (wp_ctl ?_))
    rw [hs, if_pos hu]
    exact wp_bind (wp_emit (fun hA => absurd hA (hp.resolve_left id).1))

theorem quietClose_of_plain (hF : ∀ h s, A.holds (h ++ [.faulted s]) → A.mayCrash)
    (hp : ∀ p uid, ((S.protocol p).onClose uid).Plain) : QuietClose A S :=
  fun p _ _ _ _ _ hs _ _ => wp_exec_plain hF hs rfl (.inl (hp p _))

end Kaplar.Server
