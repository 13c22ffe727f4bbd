import Kaplar.Foundation.Execution
import Kaplar.Server.ConnHandlers

/-! # Runs of the connection manager

The server thread accepts connections, takes completions, checks for timeouts and runs
tasks, in any order; other threads work on what belongs to the protocols. A task uses a
uid some callback has been given, while its slot has not been handed out too often since.
-/
namespace Kaplar.Server
open Program Execution
variable {σ : Type}

/-- Who else works with the connections: the tasks and the other threads. A uid that is still
in use somewhere may be barred from being issued again. -/
structure Usage (σ : Type) where
  tasks : σ → UInt32 → Script σ Unit → Prop
  threads : σ → σ → Prop
  barred : σ → UInt32 → Prop

/-- Any tasks and any threads. -/
def Usage.any : Usage σ := ⟨fun _ _ _ => True,fun _ _ => True,fun _ _ => False⟩

/-- A uid that a callback was given and whose counter has not come around since. -/
def Known (h : List ConnEvent) (uid : UInt32) : Prop := ∃ s k, .called s uid k ∈ h ∧
  ∀ h₁ svc h₂, h = h₁ ++ .accepted s uid svc :: h₂ →
    issues (slotOf uid) (tableEvents h₂) < 65536

inductive Action (σ : Type) where
  | accept (svc : ℕ)
  | complete (i : ℕ) (p : Pending) (err : Bool) (transferred : ℕ) (buf : List UInt8)
  | timeoutCheck
  | task (uid : UInt32) (script : Script σ Unit)
  | thread (q : σ)

namespace Services
variable (S : Services σ) (d : ℕ)

/-- What the server thread does for an action; a new connection gets a new socket. -/
def perform : Action σ → Mgr σ Unit
  | .accept svc => do
    let w ← get
    S.connmgrStartConnection d w.nextSocket svc
  | .complete i p err n buf => S.complete d i p err n buf
  | .timeoutCheck => S.connmgrTimeoutCheck d
  | .task uid script => script.exec (S.internalStartCloseOperation (d + 1)) uid
  | .thread q => update (fun w => { w with priv := q })

end Services

def Enabled (U : Usage σ) (w : World σ) (h : List ConnEvent) : Action σ → Prop
  | .accept _ => ∀ i t, w.table.internalAlloc = some (i,t) → ¬ U.barred w.priv (t.ctl i).uid
  | .timeoutCheck => True
  | .complete i p err n buf => p ∈ w.ops i ∧ Completes p.op err n buf
  | .task uid script => Known h uid ∧ U.tasks w.priv uid script
  | .thread q => U.threads w.priv q

/-- The world with all that has happened in it. -/
abbrev Site (σ : Type) := World σ × List ConnEvent

/-- One action, whichever operations then start. -/
inductive Step (S : Services σ) (d : ℕ) (U : Usage σ) : Site σ → List ConnEvent → Site σ → Prop
  | act {w w' : World σ} {h es : List ConnEvent} {a : Action σ} {x : List Bool} :
      Enabled U w h a → S.perform d a (w.reset x) = (some (),w',es) →
        Step S d U (w,h) es (w',h ++ es)

/-- The states a server comes to from its initial one. -/
def Reachable (S : Services σ) (d : ℕ) (U : Usage σ) (q : σ) (w : World σ)
    (h : List ConnEvent) : Prop := ∃ es, Run (Step S d U) (World.initial q,[]) es (w,h)

/-- The site after an action. -/
def Services.after (S : Services σ) (d : ℕ) (t : Site σ) (a : Action σ × List Bool) : Site σ :=
  ((S.perform d a.1 (t.1.reset a.2)).2.1,t.2 ++ (S.perform d a.1 (t.1.reset a.2)).2.2)

/-- One action after the other, each of them enabled and without a crash. -/
def Plays (S : Services σ) (d : ℕ) (U : Usage σ) : List (Action σ × List Bool) → Site σ → Prop
  | [], _ => True
  | a :: as, t => Enabled U t.1 t.2 a.1 ∧ (S.perform d a.1 (t.1.reset a.2)).1 = some () ∧
      Plays S d U as (S.after d t a)

/-- The site at the end of a list of actions. -/
def Services.play (S : Services σ) (d : ℕ) (as : List (Action σ × List Bool)) (q : σ) : Site σ :=
  as.foldl (S.after d) (World.initial q,[])

theorem Plays.reachable {S : Services σ} {d : ℕ} {U : Usage σ} {q : σ}
    {as : List (Action σ × List Bool)} (hp : Plays S d U as (World.initial q,[])) :
    Reachable S d U q (S.play d as q).1 (S.play d as q).2 := by
  have hrun : ∀ (as : List (Action σ × List Bool)) {t : Site σ} {es : List ConnEvent},
      Run (Step S d U) (World.initial q,[]) es t → Plays S d U as t →
        ∃ es, Run (Step S d U) (World.initial q,[]) es (as.foldl (S.after d) t) := by
    intro as
    induction as with
    | nil => exact fun hr _ => ⟨_,hr⟩
    | cons a as ih =>
      rintro t es hr ⟨he,hsome,hrest⟩
      exact ih (hr.step (.act he (Prod.ext hsome rfl))) hrest
  exact hrun as .start hp

/-! ## A uid and its connection -/

section Lookup
variable {S : Services σ} {w : World σ} {h h₁ h₂ : List ConnEvent} {uid : UInt32} {s svc : ℕ}

theorem occupant_released {slot : UInt16} {o : Option (ℕ × UInt32)}
    (hr : .released slot ∉ tableEvents h₂) (hi : issues slot (tableEvents h₂) = 0) :
    h₂.foldl (ConnEvent.occupy slot) o = o := by
  induction h₂ generalizing o with
  | nil => rfl
  | cons e es ih =>
    have hsplit : tableEvents (e :: es) = tableEvents [e] ++ tableEvents es :=
      tableEvents_append [e] es
    rw [hsplit] at hr hi
    have hi' : issues slot (tableEvents [e]) + issues slot (tableEvents es) = 0 := by
      rw [← hi]
      exact (List.countP_append).symm
    have hrest := ih (o := o) (fun hm => hr (List.mem_append_right _ hm)) (by omega)
    rw [List.foldl_cons]
    cases e with
    | accepted s uid svc =>
      have hne : slotOf uid ≠ slot := by
        rintro rfl
        have hone : issues (slotOf uid) (tableEvents [.accepted s uid svc]) = 1 := by
          simp [issues,tableEvents]
        omega
      rw [ConnEvent.occupy, if_neg hne]
      exact hrest
    | freed s slot' =>
      have hne : slot' ≠ slot := by
        rintro rfl
        exact hr (List.mem_append_left _ List.mem_cons_self)
      rw [ConnEvent.occupy, if_neg hne]
      exact hrest
    | _ => exact hrest

/-- A uid that still finds its slot finds its own connection there. -/
theorem Managed.lookup (hm : Managed S w h) (hh : h = h₁ ++ .accepted s uid svc :: h₂)
    (hn : issues (slotOf uid) (tableEvents h₂) < 65536)
    (hu : (w.table.ctl (slotOf uid).toNat).uid = uid) :
    w.inuse (slotOf uid).toNat ∧ (w.table.ctl (slotOf uid).toNat).s = s := by
  have hte : tableEvents h = tableEvents h₁ ++ .issued uid :: tableEvents h₂ := by
    rw [hh, tableEvents_append]
    rfl
  have hr := hm.kept.history uid _ _ hte
  have hrel := (hr.lookup hm.kept.wf hn).mp hu
  obtain ⟨_,hinuse,hzero⟩ := hr.alive hrel
  refine ⟨hinuse,?_⟩
  have hocc := hm.occupied _ hinuse
  rw [UInt16.ofNat_toNat, hh, occupant, List.foldl_append, List.foldl_cons, ConnEvent.occupy,
    if_pos rfl, occupant_released hrel hzero] at hocc
  exact (congrArg Prod.fst (Option.some.inj hocc)).symm

theorem stage_of_called {k : Callback} {l : Life} {past : List ConnEvent}
    (hl : life S.serviceSendsFirst past = some l) (hk : .called s uid k ∈ past) :
    l.stage ≠ .fresh := by
  intro hf
  have hd := describes_life hl
  unfold Describes at hd
  rw [hf] at hd
  have hmem : k ∈ calls past := List.mem_filterMap.mpr ⟨_,hk,rfl⟩
  rw [hd.1] at hmem
  cases hmem

/-- A known uid finds a connection that has a protocol, if it finds one. -/
theorem Managed.known (hm : Managed S w h) (hk : Known h uid)
    (hu : (w.table.ctl (slotOf uid).toNat).uid = uid) :
    w.inuse (slotOf uid).toNat ∧ ∀ l, life S.serviceSendsFirst (w.past (slotOf uid).toNat h) =
      some l → l.stage ≠ .fresh := by
  obtain ⟨s,k,hc,hbound⟩ := hk
  obtain ⟨svc,ha⟩ := hm.named s uid k hc
  obtain ⟨h₁,h₂,hh⟩ := List.append_of_mem ha
  obtain ⟨hi,hs⟩ := hm.lookup hh (hbound h₁ svc h₂ hh) hu
  refine ⟨hi,fun l hl => ?_⟩
  have hcalled : .called s uid k ∈ w.past (slotOf uid).toNat h := by
    rw [World.past, hs]
    exact mem_history.mpr ⟨hc,rfl⟩
  exact stage_of_called hl hcalled

end Lookup

/-! ## What the steps keep -/

section Steps
variable {S : Services σ} {A : Rely ConnEvent} {J : World σ → List ConnEvent → Prop} {d : ℕ}
  {w w' : World σ} {h : List ConnEvent} {i : ℕ}

theorem Good.ending (hg : Good S w h) (hi : w.inuse i) {l : Life}
    (hl : life S.serviceSendsFirst (w.past i h) = some l) :
    l.stage.ending l.sendsFirst = true := by
  have hr := (hg.settled i hi l hl).2
  obtain ⟨first,stage,n⟩ := l
  cases stage with
  | fresh =>
    cases hr
    rfl
  | answered ok =>
    obtain ⟨rfl,_⟩ := hr
    rfl
  | opened heard => rfl
  | _ => exact hr.elim

/-- Calls leave a slot at rest that was at rest. -/
theorem Talked.good (ht : Talked S i w h w' h') (hg : Good S w h) : Good S w' h' := by
  refine ht.working.good ?_
  intro l' hl'
  have hi := (ht.touch.inuse i).mp ht.working.inuse
  obtain ⟨l,ho⟩ := hg.managed.conn i hi
  obtain ⟨hst,hf⟩ := ht.stage ho.life hl'
  have hr := (hg.settled i hi l ho.life).2
  refine ⟨ht.waits,?_⟩
  rw [hst, hf]
  obtain ⟨first,stage,n⟩ := l
  cases stage with
  | answered ok => exact ⟨hr.1,ht.closing hr.2⟩
  | _ => exact hr

/-- A server task with a known uid. -/
theorem wp_task (hF : ∀ h s, A.holds (h ++ [.faulted s]) → A.mayCrash) (hq : QuietClose A S)
    (hg : Good S w h) {uid : UInt32} (hk : Known h uid) (script : Script σ Unit) :
    wp A (script.exec (S.internalStartCloseOperation (d + 1)) uid)
      (fun _ w' h' => Good S w' h') w h := by
  by_cases hu : (w.table.ctl (slotOf uid).toNat).uid = uid
  · obtain ⟨hi,hfresh⟩ := hg.managed.known hk hu
    have hr : Ready S w h (slotOf uid).toNat := by
      refine ⟨hg.working hi,?_,?_⟩
      · obtain ⟨l,ho⟩ := hg.managed.conn _ hi
        exact (hg.settled _ hi l ho.life).1
      · intro l hl
        have hend := hg.ending hi hl
        have hne := hfresh l hl
        obtain ⟨first,stage,n⟩ := l
        cases stage with
        | fresh => exact absurd rfl hne
        | answered ok =>
          cases ok
          · rfl
          · cases hend
        | opened heard => rfl
        | _ => cases hend
    have hx := wp_exec hF hq hr d script
    rw [hu] at hx
    refine wp_mono hx ?_
    rintro _ w' h' _ (ht | ⟨_,hgone⟩)
    · exact ht.good hg
    · exact hgone.good
  · refine wp_mono (wp_exec_stale hF hu script) ?_
    rintro _ w' h' _ ⟨rfl,q,rfl⟩
    exact hg.congr rfl rfl rfl

/-- The timeout check on one slot. -/
theorem Contract.checkSlot (hC : Contract A S d J) (hg : Good S w h) (hJ : J w h) (i : ℕ) :
    wp A (S.checkSlot d i) (fun _ w' h' => Good S w' h' ∧ J w' h') w h := by
  refine wp_bind (wp_ctl ?_)
  by_cases hi : (w.table.ctl i).flags.inuse = true
  · rw [if_pos hi]
    by_cases hr : (w.table.ctl i).rdwrCount = 0
    · rw [if_pos hr]
      exact hC.closes (hg.working hi) hJ (fun _ hl => hg.ending hi hl) d true
    · rw [if_neg hr]
      refine wp_setCtl ?_
      have hself := World.ctl_setCtl_self w i (fun c => { c with rdwrCount := 0 })
      have ht : Touch i w (w.setCtl i (fun c => { c with rdwrCount := 0 })) :=
        Touch.setCtl w ⟨rfl,rfl,rfl⟩
      obtain ⟨l,ho⟩ := hg.managed.conn i hi
      have hw := (hg.working hi).touch_nil ht ⟨l,by
        rw [hself]
        exact ho.same ⟨rfl,rfl,rfl,rfl,rfl,rfl,rfl⟩ ho.linked⟩
      refine ⟨hw.good ?_,hC.frame_nil hJ (ht.view hi rfl ?_)⟩
      · intro l' hl'
        rw [World.past, hself] at hl'
        rw [hself]
        exact hg.settled i hi l' hl'
      · rw [hself]
        rfl
  · rw [if_neg hi]
    exact wp_pure (fun _ => ⟨hg,hJ⟩)

theorem Contract.checkSlots (hC : Contract A S d J) (hg : Good S w h) (hJ : J w h)
    (is : List ℕ) : wp A (S.checkSlots d is) (fun _ w' h' => Good S w' h' ∧ J w' h') w h := by
  induction is generalizing w h with
  | nil => exact wp_pure (fun _ => ⟨hg,hJ⟩)
  | cons i is ih =>
    refine wp_bind (wp_mono (hC.checkSlot hg hJ i) ?_)
    rintro _ w₁ h₁ _ ⟨hg₁,hJ₁⟩
    exact ih hg₁ hJ₁

/-- With all slots in use an accepted connection crashes the server. -/
theorem accept_crash (svc : ℕ) (hfull : w.table.internalAlloc = none) :
    S.perform d (.accept svc) w = (none,w,[]) := by
  refine bind_crash (x := Services.acceptSlot w.nextSocket svc) ?_
  rw [Services.acceptSlot, get_bind, hfull]
  rfl

end Steps

/-! ## What runs keep -/

/-- What a server needs of its protocols, tasks and threads. -/
structure Serves (A : Rely ConnEvent) (S : Services σ) (d : ℕ) (U : Usage σ)
    (J : World σ → List ConnEvent → Prop) : Prop extends Contract A S d J where
  task : ∀ {w : World σ} {h : List ConnEvent} {uid : UInt32} {script : Script σ Unit},
    Good S w h → J w h → Known h uid → U.tasks w.priv uid script →
      wp A (script.exec (S.internalStartCloseOperation (d + 1)) uid)
        (fun _ w' h' => Good S w' h' ∧ J w' h') w h
  thread : ∀ {w : World σ} {h : List ConnEvent} {q : σ}, U.threads w.priv q → J w h →
    J { w with priv := q } h
  opened : ∀ {w : World σ} {h : List ConnEvent} {i svc : ℕ} {t : ConnTable}, J w h →
    w.table.internalAlloc = some (i,t) → w.table.Allocated i t →
      ¬ U.barred w.priv (t.ctl i).uid → J (w.opened i t w.nextSocket svc)
        (h ++ [.accepted w.nextSocket (t.ctl i).uid svc])

section Runs
variable {S : Services σ} {A : Rely ConnEvent} {U : Usage σ}
  {J : World σ → List ConnEvent → Prop} {d : ℕ} {w w' : World σ} {h h' : List ConnEvent}

/-- A new connection, as long as there is a slot for it. -/
theorem Serves.accept (hC : Serves A S d U J) (hg : Good S w h) (hJ : J w h)
    (hfree : w.table.internalAlloc ≠ none) {svc : ℕ} (he : Enabled U w h (.accept svc)) :
    wp A (S.connmgrStartConnection d w.nextSocket svc) (fun _ w' h' => Good S w' h' ∧ J w' h')
      w h := by
  rcases ConnTable.internalAlloc_cases hg.managed.kept.wf with ⟨hnone,_⟩ | ⟨i,t,hsome,ha⟩
  · exact absurd hnone hfree
  refine wp_bind (wp_bind (wp_get ?_))
  rw [hsome]
  refine wp_bind (wp_update (wp_bind (wp_emit (fun _ => wp_bind (wp_setCtl (wp_pure (fun _ => ?_)))))))
  show wp A _ _ (w.opened i t w.nextSocket svc) _
  obtain ⟨hm,hother⟩ := hg.managed.accept
    (e := .accepted w.nextSocket (t.ctl i).uid svc) hsome ha rfl
  generalize hw' : w.opened i t w.nextSocket svc = w' at hm hother
  generalize hh' : h ++ [.accepted w.nextSocket (t.ctl i).uid svc] = h' at hm hother
  have hself : w'.table.ctl i = { t.ctl i with
      s := w.nextSocket, rdwrCount := 1, pendingWork := 0, proto := none, udata := .service svc } := by
    rw [← hw']
    exact World.ctl_setCtl_self ..
  have hctl : ∀ j, j ≠ i → w'.table.ctl j = w.table.ctl j := by
    intro j hj
    rw [← hw', World.opened, World.ctl_setCtl, if_neg hj]
    exact (ha.ctl j).trans (if_neg hj)
  have hflags : (t.ctl i).flags = { ConnFlags.zero with inuse := true } := by
    rw [ha.ctl, if_pos rfl]
  have hi' : w'.inuse i := by rw [World.inuse, hself, hflags]
  have hw : Working S w' h' i := by
    refine ⟨hm,hi',?_⟩
    intro j hji hj
    obtain ⟨hj',hs⟩ := hother j hji hj
    exact hs (hg.settled j hj')
  have hJ' : J w' h' := by
    rw [← hh', ← hw']
    exact hC.opened hJ hsome ha (he i t hsome)
  have hpast : w'.past i h' = [.accepted w.nextSocket (t.ctl i).uid svc] := by
    rw [World.past, hself, ← hh', history_append, history_future hg.managed (Nat.le_refl _),
      List.nil_append]
    exact history_own (fun e he => by rw [List.mem_singleton.mp he]; rfl)
  have hlife : life S.serviceSendsFirst (w'.past i h') =
      some ⟨S.serviceSendsFirst svc,.fresh,0⟩ := by
    rw [hpast]
    rfl
  have halign : Aligned (w'.past i h') := by
    rw [hpast]
    show Aligned ([] ++ [_])
    exact Aligned.still aligned_nil ⟨rfl,rfl⟩
  have hops : w'.ops i = [] := by
    obtain ⟨l,ho⟩ := hm.conn i hi'
    have hl := ho.life
    rw [hlife] at hl
    cases hl
    exact List.length_eq_zero_iff.mp ho.outstanding.symm
  have hclosing : (w'.table.ctl i).flags.closing = false := by rw [hself, hflags]; rfl
  refine wp_bind (wp_mono (hC.connect hw hJ' hlife rfl hclosing hops halign) ?_)
  rintro st w₂ h₂ _ ⟨hstop,hr,hJ₂⟩
  cases st with
  | ok =>
    exact hC.goesOn hr.working hJ₂ hr.going rfl hr.reads hr.reading
      (fun hno hyes => wp_startRead hno hyes)
  | stopReading => exact wp_crash (hstop rfl)
  | close => exact hC.closes hr.working hJ₂ (fun l hl => (hr.stage l hl).1) d false
  | abort => exact hC.closes hr.working hJ₂ (fun l hl => (hr.stage l hl).1) d true

theorem Serves.perform (hS : Serves A S d U J) (hg : Good S w h) (hJ : J w h) {a : Action σ}
    (he : Enabled U w h a) (hfree : (∃ svc, a = .accept svc) → w.table.internalAlloc ≠ none) :
    wp A (S.perform d a) (fun _ w' h' => Good S w' h' ∧ J w' h') w h := by
  cases a with
  | accept svc => exact wp_bind (wp_get (hS.accept hg hJ (hfree ⟨svc,rfl⟩) he))
  | complete i p err n buf => exact hS.complete hg hJ he.1 he.2
  | timeoutCheck => exact wp_bind (wp_get (hS.checkSlots hg hJ _))
  | task uid script => exact hS.task hg hJ he.1 he.2
  | thread q => exact wp_update ⟨hg.congr rfl rfl rfl,hS.thread he hJ⟩

theorem Enabled.reset {a : Action σ} (he : Enabled U w h a) (x : List Bool) :
    Enabled U (w.reset x) h a := by
  cases a <;> exact he

/-- A step of the server, unless it crashes. -/
theorem Serves.ends (hS : Serves A S d U J) (hg : Good S w h) (hJ : J w h) {a : Action σ}
    (he : Enabled U w h a) (hfree : (∃ svc, a = .accept svc) → w.table.internalAlloc ≠ none)
    (x : List Bool) :
    wp A (S.perform d a) (fun _ w' h' => Good S w' h' ∧ J w' h') (w.reset x) h := by
  have hJ' := hS.frame_nil hJ (view_reset w x)
  exact hS.perform (w := w.reset x) (hg.congr rfl rfl rfl) hJ' (he.reset x) hfree

theorem Serves.step (hS : Serves A S d U J) {t t' : Site σ} {es : List ConnEvent}
    (hs : Step S d U t es t') (ht : A.holds t.2 → Good S t.1 t.2 ∧ J t.1 t.2) :
    A.holds t'.2 → Good S t'.1 t'.2 ∧ J t'.1 t'.2 := by
  cases hs with | @act w w' h es a x he hp => ?_
  intro hA
  obtain ⟨hg,hJ⟩ := ht (A.start hA)
  have hfree : (∃ svc, a = .accept svc) → w.table.internalAlloc ≠ none := by
    rintro ⟨svc,rfl⟩ hnone
    rw [accept_crash svc (show (w.reset x).table.internalAlloc = none from hnone)] at hp
    cases hp
  have hx := hS.ends hg hJ he hfree x
  rw [wp, hp] at hx
  exact hx hA

/-- Every state a server comes to keeps what its protocols keep. -/
theorem Serves.reachable (hS : Serves A S d U J) {q : σ} (hq : J (World.initial q) [])
    (hr : Reachable S d U q w h) (hA : A.holds h) : Good S w h ∧ J w h := by
  obtain ⟨es,hr⟩ := hr
  have hinit : Good S (World.initial q) [] := ⟨managed_initial q,fun i hi => by cases hi⟩
  exact hr.invariant (I := fun t => A.holds t.2 → Good S t.1 t.2 ∧ J t.1 t.2)
    (fun _ => ⟨hinit,hq⟩) (fun _ _ _ ht hs => hS.step hs ht) hA

/-- Protocols that obey need nothing else to hold. -/
theorem Obeys.serves (ob : Obeys A S) : Serves A S d U (fun _ _ => True) := by
  refine ⟨⟨fun _ _ _ => trivial,?_,?_,?_,?_⟩,?_,fun _ _ => trivial,fun _ _ _ _ => trivial⟩
  · intro w h i close hw _ hops hst
    exact wp_mono (wp_closeOperation ob.quiet hw hops hst close) (fun _ _ _ _ hg => ⟨hg,trivial⟩)
  · intro w h i l hw _ hl hst hc hops ha
    refine wp_mono (wp_dispatchOnConnect ob hw hl hst ?_ (by rw [hops]; rfl) ha) ?_
    · intro hcl
      rw [hc] at hcl
      cases hcl
    · exact fun _ _ _ _ hr => ⟨hr.1,hr.2,trivial⟩
  · intro w h i l data hw _ hl hst hc hnone hdue
    refine wp_mono (wp_dispatchOnRecvMessage ob hw hl hst ?_ hnone hdue) ?_
    · intro hcl
      rw [hc] at hcl
      cases hcl
    · exact fun _ _ _ _ hr => ⟨hr,trivial⟩
  · intro w h i l heard hw _ hl hst hc _
    refine wp_mono (wp_dispatchOnWrite ob hw hl hst ?_) ?_
    · intro hcl
      rw [ctl_written, hc] at hcl
      cases hcl
    · exact fun _ _ _ _ hr => ⟨hr.1,hr.2,trivial⟩
  · intro w h uid script hg _ hk _
    exact wp_mono (wp_task ob.faulted ob.quiet hg hk script) (fun _ _ _ _ hg' => ⟨hg',trivial⟩)

end Runs

end Kaplar.Server
