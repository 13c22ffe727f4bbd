import Kaplar.Protocol.OwnershipAnswer

/-! # What login connections do

The callbacks of the login protocol, the server tasks and the database thread keep
everything owned.
-/
namespace Kaplar.Protocol
open Kaplar.Server
variable {kind : ℕ → Kind} {p q : Shared} {F : ℕ → Option Face} {f : Face} {i l n : ℕ}
  {d : LoginState} {E : Setting} {α : Type} {k : Script Shared α}

namespace Owned

/-! ## A login is resolved -/

/-- With a stale uid the login gives back what it has. -/
theorem resolve_gone (ho : Owned kind (.login l) p F) {Q : α → Shared → Option Face → Prop}
    (hk : ∀ q, Owned kind .empty q F → k.post Q q none) :
    (Login.internalResolveLogin l k).post Q p none := by
  obtain ⟨d,hb⟩ := ho.logins.flight l (List.mem_append_left _ (List.mem_singleton_self l))
  simp only [Login.internalResolveLogin, Script.post, ho.loginAt hb, Option.map_none]
  cases hd : d.output with
  | none => exact hk _ (ho.unanswered hb hd).freeLogin
  | some a => exact hk _ (ho.releaseOutput hb hd).freeLogin

/-- The connection is answered, whether the answer can be sent or not. -/
theorem resolve_found (ho : Owned kind (.login l) p F) (hslot : Slotted F) (hi : F i = some f)
    (hc : ∀ d, p.loginAt l = some d → d.connection = f.uid)
    {Q : α → Shared → Option Face → Prop}
    (hk : ∀ q g, Owned kind .empty q (Function.update F i (some g)) → k.post Q q (some g)) :
    (Login.internalResolveLogin l k).post Q p (some f) := by
  obtain ⟨d,hb⟩ := ho.logins.flight l (List.mem_append_left _ (List.mem_singleton_self l))
  have hat := ho.loginAt hb
  have hu := hc d hat
  obtain ⟨hp,hfirst,hnull⟩ := ho.awaited l d i f Hand.noConfusion hb hi hu.symm
  simp only [Login.internalResolveLogin, Script.post, hat, Option.map_some]
  cases hd : d.output with
  | none =>
    refine hk _ f ?_
    rw [← hi, Function.update_eq_self]
    exact (ho.unanswered hb hd).freeLogin
  | some a =>
    obtain ⟨o,hout,hbo⟩ := ho.output Hand.noConfusion hb hd
    have hbusy := ho.awaits_idle hi ⟨hp,hfirst,hnull⟩
    let f₁ : Face := { f with udata := .ptr a }
    have ho₁ := ho.answer hi hb hd hu.symm
    have hslot₁ : Slotted (Function.update F i (some f₁)) := hslot.set hi rfl
    have hi₁ : Function.update F i (some f₁) i = some f₁ := Function.update_self ..
    have hdone {q : Shared} {g : Face} (hq : Owned kind (.answered l) q
        (Function.update (Function.update F i (some f₁)) i (some g))) :
        k.post Q (q.freeLogin l) (some g) := by
      rw [Function.update_idem] at hq
      exact hk _ g hq.freeLogin
    simp only [Script.post, hout, sendOutput, Option.map_some, hbusy, Bool.false_eq_true, if_false]
    intro ok
    cases ok with
    | false =>
      refine hdone (ho₁.changeLogin hslot₁ hi₁ hp rfl (.refl p) (.refl _ none p)
        (by rintro _ ⟨⟩) rfl ⟨rfl,rfl,rfl,rfl⟩ (by rintro ⟨⟩))
    | true =>
      have hblock : p.block a = some (.outbuf o) := outbufAt_eq.mp hout
      simp only [call, Script.post, if_true]
      rw [noteSent_eq hblock]
      refine hdone (ho₁.changeLogin (u := some d.connection) hslot₁ hi₁ hp rfl (.note _)
        ⟨fun _ _ => rfl,[_],rfl,?_⟩ ?_ rfl ⟨rfl,rfl,rfl,rfl⟩ ?_)
      · exact fun n hn => .inr ⟨_,_,_,rfl,List.mem_singleton.mp hn⟩
      · exact fun _ he => (Option.some.inj he).symm.trans hu
      · refine fun _ => ⟨rfl,_,p.record.notes,[],hbo,?_,by rintro _ ⟨⟩⟩
        rw [hu]
        rfl

/-- A server task takes its login out of the queue. -/
theorem dequeue (ho : Owned kind .empty p F) (hm : l ∈ p.serverTasks) :
    Owned kind (.login l) { p with serverTasks := p.serverTasks.erase l } F := by
  refine ho.requeue rfl ?_ (fun _ => by simp) (ho.logins.unanswered ·) (ho.logins.answered ·)
  show (l :: (p.dbTasks ++ p.dbThread.logins ++ p.serverTasks.erase l)).Perm
    (p.dbTasks ++ p.dbThread.logins ++ p.serverTasks)
  exact List.perm_middle.symm.trans ((List.perm_cons_erase hm).symm.append_left _)

/-! ## The callbacks -/

theorem login_face (ho : Owned kind .empty p F) (hi : F i = some f)
    (hk : f.proto.map kind = some .login) :
    (f.udata = .null ∨ ∃ a b, f.udata = .ptr a ∧ p.heap.block a = some (.outbuf b)) ∧
      (f.firstMsg = false → f.udata = .null) ∧
        (f.busy = true → f.udata = .ptr f.outputData ∧ Steady p f) := by
  have hf := ho.face i f hi
  rwa [FaceOk, hk] at hf

theorem login_onClose (ho : Owned kind .empty p F) (hslot : Slotted F) (hi : F i = some f)
    (hk : f.proto.map kind = some .login) : (Login.onClose f.uid).post
      (fun _ q _ => Owned kind .empty q (Function.update F i none)) p (some f) := by
  simp only [Login.onClose, Script.post, Option.map_some]
  rcases (ho.login_face hi hk).1 with hnull | ⟨a,b,hptr,hb⟩
  · rw [hnull]
    exact ho.dropped hi (by simp [hnull])
  · rw [hptr]
    exact ho.releaseUdata hslot hi hptr hb (by rintro _ ⟨⟩)

/-- What has been written was the answer to a login. -/
theorem login_onWrite (ho : Owned kind .empty p F) (hslot : Slotted F) (hi : F i = some f)
    (hk : f.proto.map kind = some .login) (hbusy : f.busy = true) : (Login.onWrite f.uid).post
      (Leaves (Owned kind .empty) F i) p (some { f with busy := false }) := by
  obtain ⟨hdata,-,hsent⟩ := ho.login_face hi hk
  have hptr := (hsent hbusy).1
  obtain ⟨b,hb⟩ : ∃ b, p.heap.block f.outputData = some (.outbuf b) := by
    rcases hdata with hnull | ⟨a,b,ha,hb⟩
    · rw [hptr] at hnull
      cases hnull
    · rw [hptr] at ha
      cases ha
      exact ⟨b,hb⟩
  simp only [Login.onWrite, Script.post, Option.map_some, hptr]
  refine ho.releaseUdata hslot hi hptr hb ?_
  rintro _ ⟨⟩
  exact ⟨rfl,rfl,rfl,hk⟩

/-! ## The first message -/

/-- A new login goes to the database thread. -/
theorem enqueue (ho : Owned kind (.login l) p F) (hb : p.heap.block l = some (.loginInfo d))
    (hd : d.output = none) : Owned kind .empty { p with dbTasks := p.dbTasks ++ [l] } F := by
  refine ho.requeue rfl ?_ (fun _ => by simp) ?_ (ho.logins.answered ·)
  · show ((p.dbTasks ++ [l]) ++ p.dbThread.logins ++ p.serverTasks).Perm
      (l :: (p.dbTasks ++ p.dbThread.logins ++ p.serverTasks))
    simp
  · intro l' hm e he
    by_cases hl : l' = l
    · subst hl
      rw [hb] at he
      cases he
      exact hd
    · refine ho.logins.unanswered l' ?_ e he
      simpa [hl] using hm

theorem login_sendDisconnect (ho : Owned kind (.login l) p F) (hslot : Slotted F)
    (hi : F i = some f) (hb : p.heap.block l = some (.loginInfo d)) (hd : d.output = none)
    (hu : d.connection = f.uid) {message : String} {Q : α → Shared → Option Face → Prop}
    (hk : ∀ q g, Owned kind .empty q (Function.update F i (some g)) → k.post Q q (some g)) :
    (Login.internalSendDisconnect E l message k).post Q p (some f) := by
  have ho₁ := ho.acquireOutput hb hd
  obtain ⟨a,hb₁⟩ := ho.acquired_output hb
  simp only [Login.internalSendDisconnect, Script.post]
  split
  · trivial
  · rename_i q hw
    obtain ⟨ho₂,hs⟩ := ho₁.writeOutput Hand.noConfusion hb₁ rfl hw
    refine ho₂.resolve_found hslot hi ?_ hk
    intro e he
    rw [ho₂.loginAt ((hs.logins l _).mpr hb₁)] at he
    cases he
    exact hu

theorem login_onFirstMessage (ho : Owned kind .empty p F) (hslot : Slotted F) (hi : F i = some f)
    (hk : f.proto.map kind = some .login) (hfirst : f.firstMsg = false) (data : List UInt8) :
    (Login.onFirstMessage E f.uid data).post (Leaves (Owned kind .empty) F i) p
      (some { f with firstMsg := true }) := by
  have hnull := (ho.login_face hi hk).2.1 hfirst
  have hno : ∀ l d, p.heap.block l = some (.loginInfo d) → d.connection ≠ f.uid := by
    refine fun l d hb hu => ho.noLogin hi ?_ Hand.noConfusion hb hu.symm
    rintro ⟨-,hf,-⟩
    rw [hfirst] at hf
    cases hf
  let f₁ : Face := { f with firstMsg := true }
  have ho₁ := ho.marked hi
  have hslot₁ : Slotted (Function.update F i (some f₁)) := hslot.set hi rfl
  have hi₁ : Function.update F i (some f₁) i = some f₁ := Function.update_self ..
  have hadd {d : LoginState} {q : Shared} (ha : Added d p q) (hc : d.connection = f.uid) :
      Owned kind (.login p.heap.next) q (Function.update F i (some f₁)) :=
    ho₁.addLogin hslot₁ hi₁ ⟨hk,rfl,hnull⟩ ha hc (by rw [hc]; exact hno)
  simp only [Login.onFirstMessage, Script.post]
  split
  · trivial
  · exact ho₁
  · rename_i login message m hr
    have ha := added_addLogin (p := p) login m
    have hu := Login.onRecvFirstMessage_isFor hr
    refine (hadd ha hu).login_sendDisconnect hslot₁ hi₁ ha.self rfl hu (fun q g hq => ?_)
    rwa [Function.update_idem] at hq
  · rename_i login m hr
    have ha := added_addLogin (p := p) login m
    exact (hadd ha (Login.onRecvFirstMessage_isFor hr)).enqueue ha.self rfl

/-! ## The database thread -/

/-- The database thread takes a login from the queue. -/
theorem db_take (ho : Owned kind .empty p F) (hidle : p.dbThread = .idle) (hm : l ∈ p.dbTasks) :
    Owned kind .empty { p with dbTasks := p.dbTasks.erase l, dbThread := .resolving l } F := by
  refine ho.requeue rfl ?_ (fun _ => Iff.rfl) ?_ nofun
  · show (p.dbTasks.erase l ++ [l] ++ p.serverTasks).Perm
      (p.dbTasks ++ p.dbThread.logins ++ p.serverTasks)
    rw [hidle, DbThread.logins, List.append_nil, List.append_assoc]
    exact List.perm_middle.trans ((List.perm_cons_erase hm).symm.append_right _)
  · rintro l' (hm' | hl) d hb
    · exact ho.logins.unanswered l' (.inl (List.mem_of_mem_erase hm')) d hb
    · cases hl
      exact ho.logins.unanswered l (.inl hm) d hb

/-- The login the thread works for comes to hand. -/
theorem fromThread (ho : Owned kind .empty p F) (ht : p.dbThread.logins = [l]) :
    Owned kind (.login l) { p with dbThread := .idle } F := by
  refine ho.requeue rfl ?_ (fun _ => by simp) ?_ nofun
  · show (l :: (p.dbTasks ++ [] ++ p.serverTasks)).Perm
      (p.dbTasks ++ p.dbThread.logins ++ p.serverTasks)
    simpa [ht] using List.perm_middle.symm
  · rintro l' (hm | hl) d hb
    · exact ho.logins.unanswered l' (.inl hm) d hb
    · cases hl

theorem toThread (ho : Owned kind (.login l) p F) (hidle : p.dbThread = .idle)
    (hb : p.heap.block l = some (.loginInfo d)) (hd : d.output ≠ none) :
    Owned kind .empty { p with dbThread := .writing l } F := by
  refine ho.requeue rfl ?_ (fun _ => by simp) ?_ ?_
  · show (p.dbTasks ++ [l] ++ p.serverTasks).Perm
      (l :: (p.dbTasks ++ p.dbThread.logins ++ p.serverTasks))
    rw [hidle]
    simp [DbThread.logins]
  · rintro l' (hm | hl) e he
    · exact ho.logins.unanswered l' (.inl hm) e he
    · cases hl
  · intro l' hl e he
    cases hl
    rw [hb] at he
    cases he
    exact hd

theorem db_acquire (ho : Owned kind .empty p F) (ht : p.dbThread = .resolving l) :
    Owned kind .empty { p.acquireOutput l with dbThread := .writing l } F := by
  have hlogins : p.dbThread.logins = [l] := by rw [ht, DbThread.logins]
  obtain ⟨d,hb⟩ := ho.logins.flight l (by simp [Shared.inFlight,hlogins])
  have hd := ho.logins.unanswered l (.inr ht) d hb
  have ho₁ := ho.fromThread hlogins
  obtain ⟨a,hb₁⟩ := ho₁.acquired_output hb
  have hto := (ho₁.acquireOutput hb hd).toThread (d := { d with output := some a }) ?_ hb₁ (by rintro ⟨⟩)
  · refine cast (congrArg (Owned kind .empty · F) ?_) hto
    rw [Shared.acquireOutput, Shared.acquireOutput, ho₁.loginAt hb, ho.loginAt hb]
    simp only [Shared.outbufAcquire]
    cases p.idle <;> rfl
  · rw [Shared.acquireOutput, ho₁.loginAt hb]
    simp only [Shared.outbufAcquire]
    cases p.idle <;> rfl

theorem db_write (ho : Owned kind .empty p F) (ht : p.dbThread = .writing l) {ptrSize : ℕ}
    {build : LoginState → MemM Unit ℕ} (hw : p.writeOutput ptrSize l build = some q) :
    Owned kind .empty { q with dbThread := .sending l } F := by
  have hlogins : p.dbThread.logins = [l] := by rw [ht, DbThread.logins]
  obtain ⟨d,hb⟩ := ho.logins.flight l (by simp [Shared.inFlight,hlogins])
  obtain ⟨a,ha⟩ := Option.ne_none_iff_exists'.mp (ho.logins.answered l ht d hb)
  obtain ⟨hq,hs⟩ := ho.writeOutput (by rintro ⟨⟩) hb ha hw
  refine hq.requeue rfl ?_ (fun _ => Iff.rfl) ?_ (by rintro _ ⟨⟩)
  · show (q.dbTasks ++ [l] ++ q.serverTasks).Perm (q.dbTasks ++ q.dbThread.logins ++ q.serverTasks)
    rw [hs.dbThread, hlogins]
  · rintro l' (hm | hl) e he
    · exact hq.logins.unanswered l' (.inl hm) e he
    · cases hl

/-- The answer goes to the server thread. -/
theorem db_send (ho : Owned kind .empty p F) (ht : p.dbThread = .sending l) :
    Owned kind .empty { p with dbThread := .idle, serverTasks := p.serverTasks ++ [l] } F := by
  refine ho.requeue rfl ?_ (fun _ => Iff.rfl) ?_ nofun
  · show (p.dbTasks ++ [] ++ (p.serverTasks ++ [l])).Perm
      (p.dbTasks ++ p.dbThread.logins ++ p.serverTasks)
    rw [ht, DbThread.logins, List.append_nil, List.append_assoc]
    exact (List.perm_append_comm).append_left _
  · rintro l' (hm | hl) d hb
    · exact ho.logins.unanswered l' (.inl hm) d hb
    · cases hl

theorem dbStep (ho : Owned kind .empty p F) (hs : Login.DbStep E p q) :
    Owned kind .empty q F := by
  cases hs with
  | take hidle hm => exact ho.db_take hidle hm
  | acquire ht => exact ho.db_acquire ht
  | write db ht hw => exact ho.db_write ht hw
  | send ht => exact ho.db_send ht

end Owned

end Kaplar.Protocol
