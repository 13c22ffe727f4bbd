import Kaplar.Server.SvcDispatch

/-! # Servers over registered protocols

What the guards of the registration are worth in every run: no step of the server calls
a callback that is missing, and the first message of a client goes to the first protocol
that was registered for it and takes it.
-/
namespace Kaplar.Server
open Program Execution
variable {σ : Type}

namespace SvcMgr
variable (m : SvcMgr σ) (null : NullCalls σ) (d : ℕ)

/-- The services that are opened and accept connections. -/
def Opens (svc : ℕ) : Prop := svc < m.services.length

def Takes (U : Usage σ) (t : Site σ) (a : Action σ × List Bool) : Prop :=
  Enabled U t.1 t.2 a.1 ∧ ∀ svc, a.1 = .accept svc → m.Opens svc

/-- An action of the server, with the operations that then start. -/
def step (t : Site σ) (a : Action σ × List Bool) : Option (Site σ × List ConnEvent) :=
  match m.perform null d a.1 (t.1.reset a.2) with
  | (none,_,_) => none
  | (some _,w,es) => some ((w,t.2 ++ es),es)

/-- The states a server with these services comes to from its initial one. -/
def Reachable (U : Usage σ) (q : σ) (w : World σ) (h : List ConnEvent) : Prop :=
  ∃ es, Run (FiresWhen (m.Takes U) (m.step null d)) (World.initial q,[]) es (w,h)

/-- Dispatching is well defined: no step depends on what a call through a null pointer does, and
a message to a connection that has no protocol yet selects the first protocol that was
registered on its service and identifies it. -/
structure Dispatches (U : Usage σ) (w : World σ) (h : List ConnEvent) : Prop where
  noNull : ∀ {a : Action σ}, Enabled U w h a → ∀ (x : List Bool) (null null' : NullCalls σ),
    m.perform null d a (w.reset x) = m.perform null' d a (w.reset x)
  first : ∀ {i s : ℕ} {len : UInt32}, ⟨s,.readBody len⟩ ∈ w.ops i →
    (w.table.ctl i).proto = none → ∃ uid svc service,
      .accepted (w.table.ctl i).s uid svc ∈ h ∧ (w.table.ctl i).udata = .service svc ∧
        m.services[svc]? = some service ∧ ∀ (null : NullCalls σ) (data : List UInt8),
          m.serviceSelectProtocol null svc data = pure
            ((service.protocols.findIdx? (fun p => p.identifies data)).map (protocolPtr svc))

section Runs
variable {m null d} {U : Usage σ} {q : σ} {w w' : World σ} {h es : List ConnEvent}

/-- What holds of a server at rest. -/
structure Rests (m : SvcMgr σ) (w : World σ) (h : List ConnEvent) : Prop where
  good : Good m.filled w h
  attended : Attended m.Opens w h

theorem Rests.reset (hr : m.Rests w h) (x : List Bool) : m.Rests (w.reset x) h :=
  ⟨hr.good.congr rfl rfl rfl,hr.attended⟩

theorem step_some {t t' : Site σ} {a : Action σ × List Bool}
    (hs : m.step null d t a = some (t',es)) :
    m.perform null d a.1 (t.1.reset a.2) = (some (),t'.1,es) ∧ t'.2 = t.2 ++ es := by
  unfold SvcMgr.step at hs
  split at hs
  case h_1 => cases hs
  case h_2 he =>
    cases hs
    exact ⟨he,rfl⟩

theorem Rests.step (hr : m.Rests w h) (hm : m.Wf) {a : Action σ × List Bool}
    (ha : m.Takes U (w,h) a) (hs : m.perform null d a.1 (w.reset a.2) = (some (),w',es))
    (hc : Careful (h ++ es)) : m.Rests w' (h ++ es) := by
  rw [hm.perform_eq (hr.reset a.2).good (ha.1.reset a.2) null d] at hs
  obtain ⟨hg,hatt⟩ := hr.attended.step hr.good ha.1 ha.2 hs hc
  exact ⟨hg,hatt⟩

/-- Every state a server comes to with careful callbacks. -/
theorem Wf.rests (hm : m.Wf) (hr : m.Reachable null d U q w h) (hc : Careful h) :
    m.Rests w h := by
  obtain ⟨es,hr⟩ := hr
  refine hr.invariant (I := fun t => Careful t.2 → m.Rests t.1 t.2) ?_ ?_ hc
  · exact fun _ => ⟨⟨managed_initial q,fun i hi => by cases hi⟩,fun i hi => by cases hi⟩
  · rintro ⟨w,h⟩ fs ⟨w',h'⟩ ht ⟨a,ha,hs⟩ hc'
    obtain ⟨hs,hlog⟩ := step_some hs
    subst hlog
    exact (ht hc'.start).step hm ha hs hc'

theorem Rests.dispatches (hr : m.Rests w h) (hm : m.Wf) : m.Dispatches d U w h := by
  refine ⟨?_,?_⟩
  · intro a ha x null null'
    have hrest := (hr.reset x).good
    rw [hm.perform_eq hrest (ha.reset x) null, hm.perform_eq hrest (ha.reset x) null']
  · intro i s len hp hproto
    have hi : w.inuse i := by
      by_contra hn
      rw [hr.good.managed.idle i hn] at hp
      cases hp
    obtain ⟨uid,svc,hopen,hu,hacc⟩ := hr.attended i hi hproto
    have hs : m.services[svc]? = some m.services[svc] := List.getElem?_eq_getElem hopen
    refine ⟨uid,svc,m.services[svc],hacc,hu,hs,fun null data => ?_⟩
    rw [hm.select (not_sendsFirst hr.good hi hproto hu), protocols_of_registered hs]

end Runs

end SvcMgr

/-- Whatever is registered and in whichever order, the ports are distinct, who sends first is
alone, the others stand in the order of their calls and a refused call changes nothing; and in
every run of careful callbacks dispatching is well defined. -/
theorem registration_dispatches {calls : List (RegProtocol σ × ℤ)}
    (hp : ∀ c ∈ calls, c.1.Provides) : (SvcMgr.register calls).Wf ∧
      (∀ svc ∈ (SvcMgr.register calls).services,
        svc.protocols = SvcMgr.initial.admitted svc.port calls) ∧
      (∀ (m : SvcMgr σ) (protocol : RegProtocol σ) (port : ℤ),
        (m.svcmgrAddProtocol protocol port).1 = false →
          (m.svcmgrAddProtocol protocol port).2 = m) ∧
        ∀ {null : NullCalls σ} {d : ℕ} {U : Usage σ} {q : σ} {w : World σ} {h : List ConnEvent},
          (SvcMgr.register calls).Reachable null d U q w h → Careful h →
            (SvcMgr.register calls).Dispatches d U w h := by
  have hm := SvcMgr.wf_register hp
  exact ⟨hm,SvcMgr.register_protocols hp,fun _ _ _ => SvcMgr.addProtocol_refused,
    fun hr hc => (hm.rests hr hc).dispatches hm⟩

/-! ## Runs that show what the result rests on -/

/-- A protocol that greets its client and says goodbye. -/
def greeting : RegProtocol Unit where
  sendsFirst := true
  identify := none
  onAssignProtocol _ := .ret true
  onClose _ := .send 0 1 (fun _ => .ret ())
  onConnect := some (fun _ => .ret .ok)
  onWrite _ := .ret .close
  onRecvMessage _ _ := .ret .ok
  onRecvFirstMessage _ _ := .ret .ok

/-- A protocol that takes no connection. -/
def declining : RegProtocol Unit := { greeting with
  onAssignProtocol := fun _ => .ret false, onClose := fun _ => .ret () }

/-- A protocol that waits for its client. -/
def listening : RegProtocol Unit := { declining with
  sendsFirst := false, identify := some (fun data => data.length = 1), onConnect := none }

/-- A null pointer that is called crashes the server. -/
def NullCalls.crashing : NullCalls Unit := ⟨fun _ => crash,fun _ => crash⟩

def twoServices : List (RegProtocol Unit × ℤ) := [(greeting,7170),(declining,7171)]

def threeCalls : List (RegProtocol Unit × ℤ) := (listening,7171) :: twoServices

theorem twoServices_provide : ∀ c ∈ twoServices, c.1.Provides :=
  List.forall_mem_cons.mpr ⟨rfl,List.forall_mem_cons.mpr ⟨rfl,nofun⟩⟩

theorem threeCalls_provide : ∀ c ∈ threeCalls, c.1.Provides :=
  List.forall_mem_cons.mpr ⟨rfl,twoServices_provide⟩

/-- A client that has sent the length of its first message. -/
def announced : List (Action Unit × List Bool) :=
  [(.accept 0,[true]),(.complete 0 ⟨0,.readLength⟩ false 2 [1,0],[true])]

/-- The site after some actions on these services. -/
def siteAfter (calls : List (RegProtocol Unit × ℤ)) (as : List (Action Unit × List Bool)) :
    Site Unit := stateAfter ((SvcMgr.register calls).step .crashing 0) (World.initial (),[]) as

theorem announced_meets : Meets ((SvcMgr.register threeCalls).Takes .any)
    ((SvcMgr.register threeCalls).step .crashing 0) announced (World.initial (),[]) := by
  refine ⟨⟨fun _ _ _ => id,?_⟩,rfl,⟨⟨by decide,.read rfl rfl⟩,fun _ => nofun⟩,rfl,trivial⟩
  rintro svc ⟨⟩
  exact Nat.le_of_ble_eq_true rfl

theorem announced_careful : Careful (siteAfter threeCalls announced).2 := by
  have hlog : (siteAfter threeCalls announced).2 = [.accepted 0 65536 0,.started 0 .readLength,
      .completed 0 .readLength [1,0],.started 0 (.readBody 1)] := by decide
  rw [hlog]
  refine ⟨trivial,?_,trivial,?_,trivial⟩
  · rintro ⟨uid,hm⟩
    simp at hm
  · rintro ⟨uid,hm⟩
    simp at hm

theorem registration_dispatches_announced :
    (SvcMgr.register threeCalls).Dispatches 0 .any (siteAfter threeCalls announced).1
      (siteAfter threeCalls announced).2 :=
  (registration_dispatches threeCalls_provide).2.2.2 announced_meets.run announced_careful

/-- A goodbye to one client completes while the next one in its slot is about to send its first
message. That message arrives when a third client, whose protocol declined it, has left the
slot without a protocol. -/
def stranded : List (Action Unit × List Bool) :=
  [(.accept 0,[true]),(.complete 0 ⟨0,.readLength⟩ false 0 [],[true]),(.accept 0,[true]),
    (.complete 0 ⟨1,.readLength⟩ false 2 [1,0],[true]),
    (.complete 0 ⟨0,.write 0 1⟩ false 0 [],[false]),(.accept 1,[])]

theorem stranded_meets : Meets ((SvcMgr.register twoServices).Takes .any)
    ((SvcMgr.register twoServices).step .crashing 0) stranded (World.initial (),[]) := by
  have hopen : ∀ svc svc', (.accept svc : Action Unit) = .accept svc' → svc < 2 →
      (SvcMgr.register twoServices).Opens svc' := by
    rintro svc _ ⟨⟩ hlt
    exact hlt
  exact ⟨⟨fun _ _ _ => id,fun _ he => hopen _ _ he (by decide)⟩,rfl,
    ⟨⟨by decide,.closed⟩,fun _ => nofun⟩,rfl,
    ⟨fun _ _ _ => id,fun _ he => hopen _ _ he (by decide)⟩,rfl,
    ⟨⟨by decide,.read rfl rfl⟩,fun _ => nofun⟩,rfl,⟨⟨by decide,.closed⟩,fun _ => nofun⟩,rfl,
    ⟨fun _ _ _ => id,fun _ he => hopen _ _ he (by decide)⟩,rfl,trivial⟩

/-- With a protocol that says goodbye the server calls an `identify` that is missing. -/
theorem registration_not_dispatches : ¬ ∀ (calls : List (RegProtocol Unit × ℤ))
    (null : NullCalls Unit) (d : ℕ) (w : World Unit) (h : List ConnEvent),
      (∀ c ∈ calls, c.1.Provides) → (SvcMgr.register calls).Reachable null d .any () w h →
        (SvcMgr.register calls).Dispatches d .any w h := by
  intro hall
  have hreach : (SvcMgr.register twoServices).Reachable .crashing 0 .any ()
      (siteAfter twoServices stranded).1 (siteAfter twoServices stranded).2 := stranded_meets.run
  generalize ht : siteAfter twoServices stranded = t at hreach
  have hdispatches := hall twoServices .crashing 0 t.1 t.2 twoServices_provide hreach
  have hpending : (⟨1,.readBody 1⟩ : Pending) ∈ t.1.ops 0 := by
    rw [← ht]
    decide
  have hsame := hdispatches.noNull (a := .complete 0 ⟨1,.readBody 1⟩ false 1 [7])
    ⟨hpending,.read rfl rfl⟩ [] .crashing ⟨fun _ => pure false,fun _ => crash⟩
  have hcrash : ((SvcMgr.register twoServices).perform .crashing 0
      (.complete 0 ⟨1,.readBody 1⟩ false 1 [7]) (t.1.reset [])).1 = none := by
    rw [← ht]
    rfl
  have hgoes : ((SvcMgr.register twoServices).perform ⟨fun _ => pure false,fun _ => crash⟩ 0
      (.complete 0 ⟨1,.readBody 1⟩ false 1 [7]) (t.1.reset [])).1 = some () := by
    rw [← ht]
    rfl
  exact absurd (hcrash.symm.trans ((congrArg Prod.fst hsame).trans hgoes)) nofun

end Kaplar.Server
