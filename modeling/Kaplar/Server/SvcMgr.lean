import Kaplar.Server.ConnMgr

/-! # Registering protocols

The services of a server with the protocols that are registered on their ports. Two of
the callbacks of a protocol are optional; which of them may be missing depends on who
sends first, and so does which protocols may share a port.
-/
namespace Kaplar.Server
variable {σ : Type}

def maxServiceProtocols : ℕ := 4

def maxServerServices : ℕ := 4

/-- `struct protocol` as it is registered: `identify` and `on_connect` are optional. -/
structure RegProtocol (σ : Type) where
  sendsFirst : Bool
  identify : Option (List UInt8 → Bool)
  onAssignProtocol : UInt32 → Script σ Bool
  onClose : UInt32 → Script σ Unit
  onConnect : Option (UInt32 → Script σ Status)
  onWrite : UInt32 → Script σ Status
  onRecvMessage : UInt32 → List UInt8 → Script σ Status
  onRecvFirstMessage : UInt32 → List UInt8 → Script σ Status

structure Service (σ : Type) where
  /-- nothing for `INVALID_SOCKET` -/
  s : Option ℕ
  closing : Bool
  pendingWork : ℤ
  port : ℤ
  /-- `protocols[0 .. num_protocols)` -/
  protocols : List (RegProtocol σ)

/-- `services[0 .. num_services)` -/
structure SvcMgr (σ : Type) where
  services : List (Service σ)

def SvcMgr.initial : SvcMgr σ := ⟨[]⟩

namespace RegProtocol

/-- The optional callback that is used is there. -/
def Provides (p : RegProtocol σ) : Prop :=
  if p.sendsFirst then p.onConnect.isSome = true else p.identify.isSome = true

def identifies (p : RegProtocol σ) (data : List UInt8) : Bool :=
  p.identify.any (fun identify => identify data)

end RegProtocol

namespace Service

/-- `protocols[0].sends_first` -/
def sendsFirst (svc : Service σ) : Bool := svc.protocols.head?.any RegProtocol.sendsFirst

/-- Whether a protocol may not join those of a service. -/
def refuses (svc : Service σ) (protocol : RegProtocol σ) : Bool :=
  protocol.sendsFirst || svc.protocols.length ≥ maxServiceProtocols || svc.sendsFirst

def add (svc : Service σ) (protocol : RegProtocol σ) : Service σ :=
  { svc with protocols := svc.protocols ++ [protocol] }

/-- A service with its first protocol. -/
def opened (protocol : RegProtocol σ) (port : ℤ) : Service σ :=
  { s := none, closing := false, pendingWork := 0, port := port, protocols := [protocol] }

end Service

def SvcMgr.svcmgrAddProtocol (m : SvcMgr σ) (protocol : RegProtocol σ) (port : ℤ) :
    Bool × SvcMgr σ :=
  match m.services.findIdx? (fun svc => svc.port = port) with
  | none =>
    if m.services.length ≥ maxServerServices then (false,m)
    else (true,⟨m.services ++ [.opened protocol port]⟩)
  | some i =>
    if (m.services[i]?).any (fun svc => svc.refuses protocol) then (false,m)
    else (true,⟨m.services.modify i (fun svc => svc.add protocol)⟩)

/-- The services after calls with these protocols and ports. -/
def SvcMgr.register (calls : List (RegProtocol σ × ℤ)) : SvcMgr σ :=
  calls.foldl (fun m c => (m.svcmgrAddProtocol c.1 c.2).2) .initial

/-! ## What registration keeps -/

/-- A service whose callbacks may be called as the connection manager does. -/
structure Service.Wf (svc : Service σ) : Prop where
  nonempty : svc.protocols ≠ []
  bound : svc.protocols.length ≤ maxServiceProtocols
  alone : ∀ p ∈ svc.protocols, p.sendsFirst = true → svc.protocols = [p]
  provides : ∀ p ∈ svc.protocols, p.Provides

structure SvcMgr.Wf (m : SvcMgr σ) : Prop where
  ports : (m.services.map Service.port).Nodup
  bound : m.services.length ≤ maxServerServices
  services : ∀ svc ∈ m.services, svc.Wf

section Wf
variable {m : SvcMgr σ} {svc : Service σ} {p : RegProtocol σ} {port : ℤ} {i : ℕ}

/-- Who sends first on a service is its only protocol. -/
theorem Service.Wf.sendsFirst (hs : svc.Wf) (hf : svc.sendsFirst = false) :
    ∀ p ∈ svc.protocols, p.sendsFirst = false := by
  intro p hp
  cases hsend : p.sendsFirst with
  | false => rfl
  | true =>
    rw [Service.sendsFirst, hs.alone p hp hsend, List.head?_cons, Option.any_some, hsend] at hf
    exact absurd hf nofun

theorem Service.wf_opened (hp : p.Provides) (port : ℤ) : (Service.opened p port).Wf := by
  have hmem : ∀ p' ∈ (Service.opened p port).protocols, p' = p := fun _ => List.mem_singleton.mp
  refine ⟨List.cons_ne_nil p [],Nat.le_of_ble_eq_true rfl,?_,?_⟩
  · intro p' hm _
    rw [hmem p' hm]
    rfl
  · intro p' hm
    exact hmem p' hm ▸ hp

/-- A protocol that is not refused fits. -/
theorem Service.Wf.add (hs : svc.Wf) (hp : p.Provides) (hr : svc.refuses p = false) :
    (svc.add p).Wf := by
  simp only [Service.refuses, Bool.or_eq_false_iff, decide_eq_false_iff_not,
    Nat.not_le] at hr
  obtain ⟨⟨hpsends,hlen⟩,hfirst⟩ := hr
  have hsends : ∀ p' ∈ (svc.add p).protocols, p'.sendsFirst = false := by
    intro p' hm
    rcases List.mem_append.mp hm with hm | hm
    · exact hs.sendsFirst hfirst p' hm
    · exact List.mem_singleton.mp hm ▸ hpsends
  refine ⟨List.append_ne_nil_of_right_ne_nil _ (List.cons_ne_nil p []),?_,?_,?_⟩
  · rw [Service.add, List.length_append]
    exact hlen
  · intro p' hm hsend
    exact absurd (hsends p' hm) (by rw [hsend]; nofun)
  · intro p' hm
    rcases List.mem_append.mp hm with hm | hm
    · exact hs.provides p' hm
    · exact List.mem_singleton.mp hm ▸ hp

/-- What a call does: it refuses, opens a service on a port of its own or adds to one. -/
theorem SvcMgr.addProtocol_cases (m : SvcMgr σ) (p : RegProtocol σ) (port : ℤ) :
    m.svcmgrAddProtocol p port = (false,m) ∨
      m.services.length < maxServerServices ∧ (∀ svc ∈ m.services, svc.port ≠ port) ∧
        m.svcmgrAddProtocol p port = (true,⟨m.services ++ [.opened p port]⟩) ∨
      ∃ i svc, m.services[i]? = some svc ∧ svc.port = port ∧ svc.refuses p = false ∧
        m.svcmgrAddProtocol p port =
          (true,⟨m.services.modify i (fun svc => svc.add p)⟩) := by
  unfold SvcMgr.svcmgrAddProtocol
  cases hfind : m.services.findIdx? (fun svc => svc.port = port) with
  | none =>
    dsimp only
    split
    case isTrue => exact .inl rfl
    case isFalse hlen =>
      refine .inr (.inl ⟨Nat.lt_of_not_le hlen,?_,rfl⟩)
      simpa using List.findIdx?_eq_none_iff.mp hfind
  | some i =>
    obtain ⟨hi,hport,_⟩ := List.findIdx?_eq_some_iff_getElem.mp hfind
    have hget : m.services[i]? = some m.services[i] := List.getElem?_eq_getElem hi
    simp only [hget, Option.any_some]
    split
    case isTrue => exact .inl rfl
    case isFalse hr =>
      exact .inr (.inr ⟨i,_,hget,of_decide_eq_true hport,Bool.eq_false_iff.mpr hr,rfl⟩)

/-- A call that returns false has changed nothing. -/
theorem SvcMgr.addProtocol_refused (hf : (m.svcmgrAddProtocol p port).1 = false) :
    (m.svcmgrAddProtocol p port).2 = m := by
  rcases m.addProtocol_cases p port with he | ⟨_,_,he⟩ | ⟨i,svc,_,_,_,he⟩ <;> rw [he] at hf ⊢
  · cases hf
  · cases hf

theorem SvcMgr.getElem?_modify (m : SvcMgr σ) (p : RegProtocol σ) (i j : ℕ) :
    (m.services.modify i (fun svc => svc.add p))[j]? =
      (m.services[j]?).map (fun svc => if i = j then svc.add p else svc) :=
  List.getElem?_modify ..

theorem SvcMgr.ports_modify (m : SvcMgr σ) (p : RegProtocol σ) (i : ℕ) :
    (m.services.modify i (fun svc => svc.add p)).map Service.port =
      m.services.map Service.port := by
  apply List.ext_getElem?
  intro j
  rw [List.getElem?_map, List.getElem?_map, m.getElem?_modify, Option.map_map]
  congr 1
  funext svc
  by_cases hij : i = j
  · rw [Function.comp_apply, if_pos hij]
    rfl
  · rw [Function.comp_apply, if_neg hij]

/-- The service a protocol is added to, or another one. -/
theorem SvcMgr.mem_modify {svc' : Service σ} (hi : m.services[i]? = some svc)
    (hs : svc' ∈ m.services.modify i (fun svc => svc.add p)) :
    svc' = svc.add p ∨ ∃ j, j ≠ i ∧ m.services[j]? = some svc' := by
  obtain ⟨j,hj⟩ := List.mem_iff_getElem?.mp hs
  rw [m.getElem?_modify] at hj
  obtain ⟨svc₀,hold,rfl⟩ := Option.map_eq_some_iff.mp hj
  by_cases hij : i = j
  · rw [hij, hold] at hi
    cases hi
    exact .inl (if_pos hij)
  · exact .inr ⟨j,Ne.symm hij,by rw [if_neg hij, hold]⟩

/-- No two services have one port. -/
theorem SvcMgr.Wf.port_ne {svc' : Service σ} {j : ℕ} (hm : m.Wf)
    (hi : m.services[i]? = some svc) (hj : m.services[j]? = some svc') (hij : j ≠ i) :
    svc'.port ≠ svc.port := by
  intro hport
  have hlt : j < (m.services.map Service.port).length := by
    rw [List.length_map]
    exact (List.getElem?_eq_some_iff.mp hj).1
  refine hij ((List.getElem?_inj hlt hm.ports).mp ?_)
  rw [List.getElem?_map, List.getElem?_map, hi, hj]
  exact congrArg some hport

theorem SvcMgr.Wf.opened (hm : m.Wf) (hp : p.Provides)
    (hlen : m.services.length < maxServerServices) (hport : ∀ svc ∈ m.services, svc.port ≠ port) :
    (⟨m.services ++ [.opened p port]⟩ : SvcMgr σ).Wf := by
  refine ⟨?_,?_,?_⟩
  · rw [List.map_append, List.nodup_append]
    refine ⟨hm.ports,List.nodup_cons.mpr ⟨List.not_mem_nil,List.nodup_nil⟩,?_⟩
    intro a ha b hb
    obtain ⟨svc,hsvc,rfl⟩ := List.mem_map.mp ha
    rw [List.mem_singleton.mp hb]
    exact hport svc hsvc
  · rw [List.length_append]
    exact hlen
  · intro svc hsvc
    rcases List.mem_append.mp hsvc with hsvc | hsvc
    · exact hm.services svc hsvc
    · exact List.mem_singleton.mp hsvc ▸ Service.wf_opened hp port

theorem SvcMgr.Wf.added (hm : m.Wf) (hp : p.Provides) (hi : m.services[i]? = some svc)
    (hr : svc.refuses p = false) :
    (⟨m.services.modify i (fun svc => svc.add p)⟩ : SvcMgr σ).Wf := by
  refine ⟨?_,?_,?_⟩
  · rw [m.ports_modify]
    exact hm.ports
  · rw [List.length_modify]
    exact hm.bound
  · intro svc' hs
    rcases SvcMgr.mem_modify hi hs with rfl | ⟨j,_,hj⟩
    · exact (hm.services svc (List.mem_of_getElem? hi)).add hp hr
    · exact hm.services svc' (List.mem_of_getElem? hj)

theorem SvcMgr.Wf.addProtocol (hm : m.Wf) (hp : p.Provides) (port : ℤ) :
    (m.svcmgrAddProtocol p port).2.Wf := by
  rcases m.addProtocol_cases p port with he | ⟨hlen,hport,he⟩ | ⟨i,svc,hi,_,hr,he⟩ <;> rw [he]
  · exact hm
  · exact hm.opened hp hlen hport
  · exact hm.added hp hi hr

/-- Whatever is registered, and on whichever ports. -/
theorem SvcMgr.Wf.register {calls : List (RegProtocol σ × ℤ)} (hm : m.Wf)
    (hp : ∀ c ∈ calls, c.1.Provides) :
    (calls.foldl (fun m c => (m.svcmgrAddProtocol c.1 c.2).2) m).Wf := by
  induction calls generalizing m with
  | nil => exact hm
  | cons c calls ih =>
    exact ih (hm.addProtocol (hp c List.mem_cons_self) c.2)
      (fun c' hc => hp c' (List.mem_cons_of_mem c hc))

theorem SvcMgr.wf_initial : (SvcMgr.initial : SvcMgr σ).Wf :=
  ⟨List.nodup_nil,Nat.zero_le _,fun _ => nofun⟩

theorem SvcMgr.wf_register {calls : List (RegProtocol σ × ℤ)} (hp : ∀ c ∈ calls, c.1.Provides) :
    (SvcMgr.register calls).Wf := SvcMgr.wf_initial.register hp

end Wf

/-! ## The order of registration -/

/-- The protocols that calls register on a port, in the order of the calls. -/
def SvcMgr.admitted (port : ℤ) : SvcMgr σ → List (RegProtocol σ × ℤ) → List (RegProtocol σ)
  | _, [] => []
  | m, c :: calls =>
    (if (m.svcmgrAddProtocol c.1 c.2).1 = true ∧ c.2 = port then [c.1] else []) ++
      admitted port (m.svcmgrAddProtocol c.1 c.2).2 calls

/-- Every service has the protocols that are listed for its port, and there is one for every port
with a protocol. -/
structure SvcMgr.Lists (m : SvcMgr σ) (on : ℤ → List (RegProtocol σ)) : Prop where
  listed : ∀ svc ∈ m.services, svc.protocols = on svc.port
  served : ∀ port, on port ≠ [] → ∃ svc ∈ m.services, svc.port = port

section Order
variable {m : SvcMgr σ} {on : ℤ → List (RegProtocol σ)} {p : RegProtocol σ} {port : ℤ}

/-- The lists after a protocol was registered on a port. -/
def listedWith (on : ℤ → List (RegProtocol σ)) (p : RegProtocol σ) (port port' : ℤ) :
    List (RegProtocol σ) :=
  on port' ++ if port = port' then [p] else []

theorem listedWith_self : listedWith on p port port = on port ++ [p] := by
  rw [listedWith, if_pos rfl]

theorem listedWith_of_ne {port' : ℤ} (h : port ≠ port') : listedWith on p port port' = on port' := by
  rw [listedWith, if_neg h, List.append_nil]

theorem SvcMgr.Lists.opened (hl : m.Lists on) (hport : ∀ svc ∈ m.services, svc.port ≠ port) :
    (⟨m.services ++ [.opened p port]⟩ : SvcMgr σ).Lists (listedWith on p port) := by
  have hempty : on port = [] := by
    by_contra hne
    obtain ⟨svc,hs,hsame⟩ := hl.served port hne
    exact hport svc hs hsame
  refine ⟨fun svc hs => ?_,fun port' hne => ?_⟩
  · rcases List.mem_append.mp hs with hs | hs
    · rw [listedWith_of_ne (hport svc hs).symm]
      exact hl.listed svc hs
    · rw [List.mem_singleton.mp hs]
      show [p] = listedWith on p port port
      rw [listedWith_self, hempty, List.nil_append]
  · by_cases hp' : port = port'
    · exact ⟨.opened p port,List.mem_append_right _ List.mem_cons_self,hp'⟩
    · rw [listedWith_of_ne hp'] at hne
      obtain ⟨svc,hs,hsame⟩ := hl.served port' hne
      exact ⟨svc,List.mem_append_left _ hs,hsame⟩

theorem SvcMgr.Lists.added (hl : m.Lists on) (hm : m.Wf) {i : ℕ} {svc : Service σ}
    (hi : m.services[i]? = some svc) :
    (⟨m.services.modify i (fun svc => svc.add p)⟩ : SvcMgr σ).Lists
      (listedWith on p svc.port) := by
  refine ⟨fun svc' hs => ?_,fun port' hne => ?_⟩
  · rcases SvcMgr.mem_modify hi hs with rfl | ⟨j,hij,hj⟩
    · show svc.protocols ++ [p] = listedWith on p svc.port svc.port
      rw [listedWith_self, hl.listed svc (List.mem_of_getElem? hi)]
    · rw [listedWith_of_ne (hm.port_ne hi hj hij).symm]
      exact hl.listed svc' (List.mem_of_getElem? hj)
  · have hold : port' ∈ m.services.map Service.port := by
      by_cases hport : svc.port = port'
      · exact List.mem_map.mpr ⟨svc,List.mem_of_getElem? hi,hport⟩
      · rw [listedWith_of_ne hport] at hne
        exact List.mem_map.mpr (hl.served port' hne)
    rw [← m.ports_modify p i] at hold
    exact List.mem_map.mp hold

theorem SvcMgr.Lists.addProtocol (hl : m.Lists on) (hm : m.Wf) :
    (m.svcmgrAddProtocol p port).2.Lists (fun port' => on port' ++
      if (m.svcmgrAddProtocol p port).1 = true ∧ port = port' then [p] else []) := by
  rcases m.addProtocol_cases p port with he | ⟨_,hport,he⟩ | ⟨i,svc,hi,rfl,_,he⟩ <;> rw [he]
  · refine ⟨fun svc hs => ?_,fun port' hne => hl.served port' ?_⟩
    · simpa using hl.listed svc hs
    · simpa using hne
  · simp only [true_and]
    exact hl.opened hport
  · simp only [true_and]
    exact hl.added hm hi

theorem SvcMgr.Lists.register {calls : List (RegProtocol σ × ℤ)} (hl : m.Lists on) (hm : m.Wf)
    (hp : ∀ c ∈ calls, c.1.Provides) :
    (calls.foldl (fun m c => (m.svcmgrAddProtocol c.1 c.2).2) m).Lists
      (fun port => on port ++ m.admitted port calls) := by
  induction calls generalizing m on with
  | nil =>
    simp only [SvcMgr.admitted, List.append_nil]
    exact hl
  | cons c calls ih =>
    have hrest := ih (hl.addProtocol hm) (hm.addProtocol (hp c List.mem_cons_self) c.2)
      (fun c' hc => hp c' (List.mem_cons_of_mem c hc))
    simp only [List.append_assoc] at hrest
    exact hrest

/-- A service has the protocols that were registered on its port, in their order. -/
theorem SvcMgr.register_protocols {calls : List (RegProtocol σ × ℤ)}
    (hp : ∀ c ∈ calls, c.1.Provides) :
    ∀ svc ∈ (SvcMgr.register calls).services,
      svc.protocols = SvcMgr.initial.admitted svc.port calls := by
  have hl : (SvcMgr.initial : SvcMgr σ).Lists (fun _ => []) :=
    ⟨fun _ => nofun,fun _ hne => absurd rfl hne⟩
  exact (hl.register wf_initial hp).listed

end Order

end Kaplar.Server
