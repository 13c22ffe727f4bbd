import Kaplar.Foundation.Effect
import Kaplar.Server.ConnFace

/-! # What the protocols have heard

A message callback that has not been called does not matter. In a run in which only some
messages have been dispatched the protocols may as well be taken for protocols that crash
on all others, and what they keep may rest on the messages there are.
-/
namespace Kaplar.Server
open Program Execution
variable {σ α β : Type}

/-- The protocols, crashing on messages that are not among the ones in `H`. -/
noncomputable def Services.hearing (S : Services σ) (H : UInt32 → Callback → Prop) :
    Services σ := open Classical in
  { S with protocol := fun n => { S.protocol n with
      onRecvMessage := fun uid data =>
        if H uid (.recv data) then (S.protocol n).onRecvMessage uid data else .fault
      onRecvFirstMessage := fun uid data =>
        if H uid (.recvFirst data) then (S.protocol n).onRecvFirstMessage uid data else .fault } }

/-- All callbacks in a trace are among the ones in `H`. -/
def Within (H : UInt32 → Callback → Prop) (es : List ConnEvent) : Prop :=
  ∀ s uid k, .called s uid k ∈ es → H uid k

/-- The callbacks in a trace. -/
def Heard (h : List ConnEvent) (uid : UInt32) (k : Callback) : Prop := ∃ s, .called s uid k ∈ h

/-- The programs do the same as long as only callbacks in `H` are called. -/
def Agrees (H : UInt32 → Callback → Prop) (x y : Mgr σ α) : Prop :=
  ∀ w, Within H (y w).2.2 → x w = y w

section Agrees
variable {H : UInt32 → Callback → Prop} {x y : Mgr σ α} {f g : α → Mgr σ β} {es fs : List ConnEvent}

theorem Within.left (hw : Within H (es ++ fs)) : Within H es :=
  fun s uid k hm => hw s uid k (List.mem_append_left _ hm)

theorem Within.right (hw : Within H (es ++ fs)) : Within H fs :=
  fun s uid k hm => hw s uid k (List.mem_append_right _ hm)

theorem Agrees.of_eq (h : x = y) : Agrees H x y := fun _ _ => by rw [h]

theorem Agrees.bind (hx : Agrees H x y) (hf : ∀ a, Agrees H (f a) (g a)) :
    Agrees H (x >>= f) (y >>= g) := by
  intro w hw
  rw [bind_apply] at hw
  have hfirst : Within H (y w).2.2 := by
    rcases hy : y w with ⟨_ | a,t,es⟩
    · rwa [hy] at hw
    · rw [hy] at hw
      exact hw.left
  rw [bind_apply, bind_apply, hx w hfirst]
  rcases hy : y w with ⟨_ | a,t,es⟩
  · rfl
  · rw [hy] at hw
    simp only [hf a t hw.right]

theorem Agrees.ite {c : Prop} [Decidable c] {x' y' : Mgr σ α} (hx : Agrees H x y)
    (hx' : Agrees H x' y') : Agrees H (if c then x else x') (if c then y else y') := by
  split
  · exact hx
  · exact hx'

end Agrees

section Hearing
variable (S : Services σ) (H : UInt32 → Callback → Prop) (d : ℕ)

theorem hearing_startClose :
    (S.hearing H).internalStartCloseOperation d = S.internalStartCloseOperation d := by
  induction d with
  | zero => rfl
  | succ d ih =>
    funext i abort
    rw [Services.internalStartCloseOperation, Services.internalStartCloseOperation, ih]
    rfl

theorem hearing_callback (i : ℕ) (k : Callback) (body : UInt32 → Script σ α) :
    (S.hearing H).callback d i k body = S.callback d i k body := by
  rw [Services.callback, Services.callback, hearing_startClose]

theorem hearing_onAssign (i p : ℕ) :
    (S.hearing H).onAssignProtocol d i p = S.onAssignProtocol d i p := by
  rw [Services.onAssignProtocol, Services.onAssignProtocol, hearing_callback]
  rfl

/-- Callbacks without a message. -/
theorem hearing_notify (i : ℕ) (k : Callback) {f : Protocol σ → UInt32 → Script σ Status}
    (hf : ∀ p, f ((S.hearing H).protocol p) = f (S.protocol p)) :
    (S.hearing H).notify d i k f = S.notify d i k f := by
  simp only [Services.notify, hearing_callback, hf]

theorem hearing_connect (i : ℕ) :
    (S.hearing H).internalDispatchOnConnect d i = S.internalDispatchOnConnect d i := by
  simp only [Services.internalDispatchOnConnect, hearing_onAssign,
    hearing_notify S H d i .connect (f := Protocol.onConnect) (fun _ => rfl)]
  rfl

theorem hearing_abort (i : ℕ) : (S.hearing H).internalAbort d i = S.internalAbort d i := by
  rw [Services.internalAbort, Services.internalAbort, hearing_startClose]

theorem hearing_asyncRead (i : ℕ) (op : Op) :
    (S.hearing H).internalAsyncRead d i op = S.internalAsyncRead d i op := by
  rw [Services.internalAsyncRead, Services.internalAsyncRead, hearing_abort]

theorem hearing_finish (i : ℕ) : (S.hearing H).internalFinish d i = S.internalFinish d i := by
  rw [Services.internalFinish, Services.internalFinish, hearing_startClose]
  rfl

variable {S H d}

/-- A message is handed to a protocol that hears it. -/
theorem agrees_notify (i : ℕ) (k : Callback) {body : Protocol σ → UInt32 → Script σ Status}
    (hb : ∀ p uid, H uid k → body ((S.hearing H).protocol p) uid = body (S.protocol p) uid) :
    Agrees H ((S.hearing H).notify d i k body) (S.notify d i k body) := by
  refine Agrees.bind (.of_eq rfl) (fun c => ?_)
  cases c.proto with
  | none => exact .of_eq rfl
  | some p =>
    refine Agrees.bind ?_ (fun _ => .of_eq rfl)
    rw [hearing_callback]
    refine Agrees.bind (.of_eq rfl) (fun c w hw => ?_)
    have hheard : H c.uid k := hw c.s c.uid k List.mem_cons_self
    rw [hb p c.uid hheard]

theorem agrees_dispatchMessage (i : ℕ) (data : List UInt8) :
    Agrees H ((S.hearing H).dispatchMessage d i data) (S.dispatchMessage d i data) := by
  refine Agrees.bind (.of_eq rfl) (fun c => .ite ?_ ?_)
  · exact agrees_notify i _ (fun p uid hk => if_pos hk)
  · exact Agrees.bind (.of_eq rfl) (fun _ => agrees_notify i _ (fun p uid hk => if_pos hk))

theorem agrees_message (i : ℕ) (data : List UInt8) :
    Agrees H ((S.hearing H).internalDispatchOnRecvMessage d i data)
      (S.internalDispatchOnRecvMessage d i data) := by
  refine Agrees.bind (.of_eq rfl) (fun c => ?_)
  cases c.proto with
  | some p => exact agrees_dispatchMessage i data
  | none =>
    cases c.udata with
    | service svc =>
      have hselect : (S.hearing H).serviceSelectProtocol svc data =
          S.serviceSelectProtocol svc data := rfl
      dsimp only
      rw [hselect]
      cases S.serviceSelectProtocol svc data with
      | none => exact .of_eq rfl
      | some p =>
        refine Agrees.bind (.of_eq rfl) (fun _ => Agrees.bind ?_ (fun _ => .ite ?_ (.of_eq rfl)))
        · exact .of_eq (hearing_onAssign S H d i p)
        · exact agrees_dispatchMessage i data
    | _ => exact .of_eq rfl

theorem agrees_complete (i : ℕ) (p : Pending) (err : Bool) (n : ℕ) (buf : List UInt8) :
    Agrees H ((S.hearing H).complete d i p err n buf) (S.complete d i p err n buf) := by
  refine Agrees.bind (.of_eq rfl) (fun _ => Agrees.bind (.of_eq rfl) (fun _ => ?_))
  cases p.op with
  | readLength =>
    refine .of_eq ?_
    simp only [Services.internalOnReadLength, hearing_finish, hearing_asyncRead, hearing_abort]
  | write data len =>
    refine .of_eq ?_
    simp only [Services.internalOnWrite, Services.internalAsyncWrite, Services.internalDispatchOnWrite,
      Services.internalClose, hearing_finish, hearing_abort, hearing_startClose,
      hearing_notify S H d i .write (f := Protocol.onWrite) (fun _ => rfl)]
  | readBody len =>
    simp only [Services.internalOnReadBody, Services.internalClose, hearing_finish,
      hearing_asyncRead, hearing_abort, hearing_startClose]
    refine Agrees.bind (.of_eq rfl) (fun _ => Agrees.bind (.of_eq rfl) (fun c => ?_))
    refine .ite (.of_eq rfl) (.ite (.of_eq rfl) (.ite (.of_eq rfl) ?_))
    exact Agrees.bind (agrees_message i _) (fun _ => .of_eq rfl)

theorem hearing_checkSlots (is : List ℕ) : (S.hearing H).checkSlots d is = S.checkSlots d is := by
  induction is with
  | nil => rfl
  | cons i is ih =>
    simp only [Services.checkSlots, Services.checkSlot, hearing_abort, ih]

theorem agrees_perform (a : Action σ) :
    Agrees H ((S.hearing H).perform d a) (S.perform d a) := by
  cases a with
  | accept svc =>
    refine .of_eq ?_
    simp only [Services.perform, Services.connmgrStartConnection, Services.internalClose,
      hearing_connect, hearing_abort, hearing_startClose]
  | complete i p err n buf => exact agrees_complete i p err n buf
  | timeoutCheck =>
    refine .of_eq ?_
    simp only [Services.perform, Services.connmgrTimeoutCheck, hearing_checkSlots]
  | task uid script =>
    refine .of_eq ?_
    simp only [Services.perform, hearing_startClose]
  | thread q => exact .of_eq rfl

theorem closeless_hearing (hS : S.Closeless) : (S.hearing H).Closeless := by
  refine ⟨hS.assign,hS.connect,hS.write,fun p uid body => ?_,fun p uid body => ?_⟩
  · by_cases hk : H uid (.recv body)
    · have heq : ((S.hearing H).protocol p).onRecvMessage uid body = _ := if_pos hk
      exact heq ▸ hS.recv p uid body
    · have heq : ((S.hearing H).protocol p).onRecvMessage uid body = .fault := if_neg hk
      rw [heq]
      trivial
  · by_cases hk : H uid (.recvFirst body)
    · have heq : ((S.hearing H).protocol p).onRecvFirstMessage uid body = _ := if_pos hk
      exact heq ▸ hS.recvFirst p uid body
    · have heq : ((S.hearing H).protocol p).onRecvFirstMessage uid body = .fault := if_neg hk
      rw [heq]
      trivial

variable {U : Usage σ} {q : σ} {w : World σ} {h : List ConnEvent}

/-- A run in which only callbacks in `H` are called is a run of the protocols that hear them. -/
theorem Reachable.hearing (hr : Reachable S d U q w h) (hH : Within H h) :
    Reachable (S.hearing H) d U q w h := by
  obtain ⟨es,hr⟩ := hr
  have hrun : ∀ {es : List ConnEvent} {t : Site σ}, Run (Step S d U) (World.initial q,[]) es t →
      Within H t.2 → ∃ es, Run (Step (S.hearing H) d U) (World.initial q,[]) es t := by
    intro es t hr
    induction hr with
    | start => exact fun _ => ⟨[],.start⟩
    | step _ hs ih =>
      intro hw
      cases hs with | @act w w' h es a x he hp => ?_
      obtain ⟨fs,hrun⟩ := ih hw.left
      have hagree := agrees_perform (S := S) (H := H) (d := d) a (w.reset x) (by rw [hp]; exact hw.right)
      exact ⟨_,hrun.step (.act he (hagree.trans hp))⟩
  exact hrun hr hH

/-- What protocols that hear some messages keep holds in every run in which no others come. -/
theorem Upholds.heard {I : σ → (ℕ → Option Face) → Prop} (up : Upholds (S.hearing H) U I)
    (hS : S.Closeless) (hp : ∀ p uid, ((S.protocol p).onClose uid).Plain)
    (hq : Upheld I (World.initial q)) (hr : Reachable S d U q w h) (hH : Within H h) :
    Upheld I w :=
  ((up.serves (closeless_hearing hS) hp).reachable hq (hr.hearing hH) trivial).2

end Hearing

section Post
variable {Q Q' : α → σ → Option Face → Prop}

/-- What is shown of a script in two parts. -/
theorem Script.post_and {script : Script σ α} {p : σ} {f : Option Face} (h : script.post Q p f)
    (h' : script.post Q' p f) : script.post (fun a p f => Q a p f ∧ Q' a p f) p f := by
  induction script generalizing p f with
  | ret a => exact ⟨h,h'⟩
  | fault => trivial
  | load k ih => exact ih p h h'
  | store q k ih => exact ih h h'
  | userdata k ih => exact ih _ h h'
  | setUserdata v k ih => exact ih h h'
  | send data len k ih =>
    cases f with
    | none => exact ih false h h'
    | some f =>
      simp only [Script.post] at h h' ⊢
      split
      case isTrue hb =>
        rw [if_pos hb] at h h'
        exact ih false h h'
      case isFalse hb =>
        rw [if_neg hb] at h h'
        exact fun ok => ih ok (h ok) (h' ok)
  | close abort k => exact h

end Post

end Kaplar.Server
