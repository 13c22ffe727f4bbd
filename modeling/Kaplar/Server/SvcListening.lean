import Kaplar.Foundation.Execution
import Kaplar.Server.SvcAccept

/-! # Services in every run

A service that listens has one accept outstanding. It stops listening when it is asked to,
or when it has said so in the log: after five accepts in a row that did not start, and a
reopening that failed. No socket is lost or closed twice on the way.
-/
namespace Kaplar.Server
open Program Execution

/-- Between the completions: one accept is outstanding exactly while the service listens. -/
structure Listener.Rest (svc : Listener) : Prop where
  pending : svc.pendingWork = if svc.s.isSome then 1 else 0
  closing : svc.closing = true → svc.s.isSome = true

section Specs
variable {α : Type} {n i s : ℕ} {hand : List ℕ} {w : SvcWorld} {h : List SvcEvent}

theorem wp_service {A : Rely SvcEvent} {Q : Listener → SvcWorld → List SvcEvent → Prop}
    (hq : Q (w.svc i) w h) : wp A (service i) Q w h := wp_bind (wp_get (wp_pure (fun _ => hq)))

theorem wp_setService {A : Rely SvcEvent} {Q : Unit → SvcWorld → List SvcEvent → Prop}
    {f : Listener → Listener} (hq : Q () (w.setSvc i f) h) : wp A (setService i f) Q w h := wp_update hq

theorem wp_succeeds {Q : Bool → SvcWorld → List SvcEvent → Prop}
    (hq : ∀ ok, Q ok { w with answers := w.answers.tail } h) : wp .nothing succeeds Q w h :=
  wp_bind (wp_get (wp_bind (wp_update (wp_pure (fun _ => hq _)))))

theorem wp_event {Q : Unit → SvcWorld → List SvcEvent → Prop} {e : SvcEvent}
    (hq : Q () w (h ++ [e])) : wp .nothing (emit e) Q w h := wp_emit (fun _ => hq)

theorem wp_return {Q : α → SvcWorld → List SvcEvent → Prop} {a : α} (hq : Q a w h) :
    wp .nothing (pure a) Q w h := wp_pure (fun _ => hq)

theorem newSocket_spec (hs : Sockets n hand w h) : wp .nothing newSocket (fun r w' h' =>
    w'.svc = w.svc ∧ Sockets n (r.toList ++ hand) w' h') w h := by
  refine wp_bind (wp_succeeds (fun ok => ?_))
  cases ok with
  | false => exact wp_return ⟨rfl,hs.answered _⟩
  | true => exact wp_bind (wp_get (wp_bind (wp_update (wp_bind (wp_event
      (wp_return ⟨rfl,(hs.answered _).created⟩))))))

theorem internalCreateIocpSocket_spec (hs : Sockets n hand w h) :
    wp .nothing internalCreateIocpSocket (fun r w' h' =>
      w'.svc = w.svc ∧ Sockets n (r.toList ++ hand) w' h') w h := by
  refine wp_bind (wp_mono (newSocket_spec hs) (fun r w₁ h₁ _ ⟨hsvc,hs₁⟩ => ?_))
  cases r with
  | none => exact wp_return ⟨hsvc,hs₁⟩
  | some s =>
    refine wp_bind (wp_succeeds (fun ok => ?_))
    cases ok with
    | true => exact wp_return ⟨hsvc,hs₁.answered _⟩
    | false => exact wp_bind (wp_event (wp_return ⟨hsvc,(hs₁.answered _).gone rfl rfl⟩))

/-- A start has been tried on a service with nothing outstanding. -/
structure Tried (n i : ℕ) (hand : List ℕ) (w : SvcWorld) (ok : Bool) (w' : SvcWorld)
    (h' : List SvcEvent) : Prop where
  sockets : Sockets n hand w' h'
  only : Only i w w'
  s : (w'.svc i).s = (w.svc i).s
  closing : (w'.svc i).closing = (w.svc i).closing
  pending : (w'.svc i).pendingWork = if ok then 1 else 0

theorem serviceStartAsyncAccept_spec (hi : i < n) (hs : Sockets n hand w h)
    (hp : (w.svc i).pendingWork = 0) :
    wp .nothing (serviceStartAsyncAccept i) (Tried n i hand w) w h := by
  refine wp_bind (wp_mono (internalCreateIocpSocket_spec hs) (fun r w₁ h₁ _ ⟨hsvc,hs₁⟩ => ?_))
  have hp₁ : (w₁.svc i).pendingWork = 0 := by rw [hsvc, hp]
  have honly : Only i w w₁ := ⟨fun j _ => congrFun hsvc j,by rw [hsvc]⟩
  cases r with
  | none => exact wp_return ⟨hs₁,honly,by rw [hsvc],by rw [hsvc],hp₁⟩
  | some a =>
    refine wp_bind (wp_setService (wp_bind (wp_succeeds (fun ok => ?_))))
    have hs₂ : Sockets n (a :: hand) (w₁.setSvc i (fun svc => { svc with acceptSocket := a })) h₁ :=
      hs₁.exchange hi (by simp only [Listener.sockets, if_pos hp₁]; exact List.Perm.refl _)
    cases ok with
    | false =>
      refine wp_bind (wp_event (wp_return ⟨(hs₂.answered _).gone rfl rfl,
        (honly.set rfl).answered _,?_,?_,?_⟩))
      all_goals simp only [SvcWorld.svc_setSvc_self, hsvc]
      exact hp
    | true =>
      refine wp_bind (wp_event (wp_bind (wp_setService (wp_return ⟨?_,
        ((honly.set rfl).answered _).set rfl,?_,?_,?_⟩))))
      · refine ((hs₂.answered _).note rfl rfl).exchange hi ?_
        simp only [SvcWorld.svc_setSvc_self, Listener.sockets, hp₁, if_pos, Int.zero_add,
          Int.one_ne_zero, if_false, List.append_nil]
        rw [← List.append_assoc, List.cons_append]
        exact (List.perm_append_singleton a _)
      all_goals simp only [SvcWorld.svc_setSvc_self, hsvc, hp]
      · rfl

theorem acceptTries_spec (k : ℕ) (hi : i < n) (hs : Sockets n hand w h)
    (hp : (w.svc i).pendingWork = 0) :
    wp .nothing (acceptTries i k) (Tried n i hand w) w h := by
  induction k generalizing w h with
  | zero => exact wp_return ⟨hs,.refl i w,rfl,rfl,hp⟩
  | succ k ih =>
    refine wp_bind (wp_mono (serviceStartAsyncAccept_spec hi hs hp) (fun ok w₁ h₁ _ ht => ?_))
    cases ok with
    | true => exact wp_return ht
    | false =>
      refine wp_mono (ih ht.sockets ht.pending) (fun ok w₂ h₂ _ ht₂ => ?_)
      exact ⟨ht₂.sockets,ht.only.trans ht₂.only,ht₂.s.trans ht.s,ht₂.closing.trans ht.closing,
        ht₂.pending⟩

theorem internalServiceClose_spec (hi : i < n) (hs : Sockets n hand w h)
    (hsome : (w.svc i).s = some s) : wp .nothing (internalServiceClose i) (fun _ w' h' =>
      Sockets n hand w' h' ∧
        w' = w.setSvc i (fun svc => { svc with s := none, closing := false })) w h := by
  refine wp_bind (wp_service ?_)
  rw [hsome]
  refine wp_bind (wp_event (wp_setService ⟨?_,rfl⟩))
  -- the socket passes through the hand on its way out
  have hhand : Sockets n (s :: hand)
      (w.setSvc i (fun svc => { svc with s := none, closing := false })) h := by
    refine hs.exchange hi ?_
    simp only [Listener.sockets, hsome, Option.toList_none, Option.toList_some, List.nil_append,
      List.cons_append]
    exact List.perm_middle.symm
  exact hhand.gone rfl rfl

/-- One service has changed, and is at rest again. -/
structure SvcSettled (n i : ℕ) (w w' : SvcWorld) (h' : List SvcEvent) : Prop where
  sockets : Sockets n [] w' h'
  only : Only i w w'
  rest : (w'.svc i).Rest

theorem serviceOpen_spec (hi : i < n) (hs : Sockets n [] w h) (hnone : (w.svc i).s = none)
    (hr : (w.svc i).Rest) : wp .nothing (serviceOpen i) (fun ok w' h' =>
      SvcSettled n i w w' h' ∧ (w'.svc i).closing = false ∧ (w'.svc i).s.isSome = ok) w h := by
  have hp : (w.svc i).pendingWork = 0 := by rw [hr.pending, hnone]; rfl
  have hc : (w.svc i).closing = false := by
    cases hc : (w.svc i).closing with
    | false => rfl
    | true =>
      have hsome := hr.closing hc
      rw [hnone] at hsome
      cases hsome
  refine wp_bind (wp_service ?_)
  rw [hnone]
  refine wp_bind (wp_mono (internalCreateIocpSocket_spec hs) (fun r w₁ h₁ _ ⟨hsvc,hs₁⟩ => ?_))
  have honly : Only i w w₁ := ⟨fun j _ => congrFun hsvc j,by rw [hsvc]⟩
  have hrest : (w₁.svc i).Rest ∧ (w₁.svc i).closing = false ∧ (w₁.svc i).s.isSome = false := by
    rw [hsvc]
    exact ⟨hr,hc,by rw [hnone]; rfl⟩
  cases r with
  | none => exact wp_return ⟨⟨hs₁,honly,hrest.1⟩,hrest.2⟩
  | some s =>
    refine wp_bind (wp_succeeds (fun bound => ?_))
    cases bound with
    | false => exact wp_bind (wp_event (wp_return ⟨⟨(hs₁.answered _).gone rfl rfl,
        honly.answered _,hrest.1⟩,hrest.2⟩))
    | true =>
      refine wp_bind (wp_succeeds (fun listens => ?_))
      cases listens with
      | false => exact wp_bind (wp_event (wp_return ⟨⟨((hs₁.answered _).answered _).gone rfl rfl,
          (honly.answered _).answered _,hrest.1⟩,hrest.2⟩))
      | true =>
        refine wp_bind (wp_event (wp_bind (wp_setService ?_)))
        have hs₂ := (((hs₁.answered w₁.answers.tail).answered w₁.answers.tail.tail).note
          (e := .listening s (w.svc i).port) rfl rfl).exchange (k := []) (i := i)
          (f := fun svc => { svc with s := some s }) hi (by
            simp only [Listener.sockets, hsvc, hnone, hp]
            exact List.Perm.refl _)
        have honly₂ := ((honly.answered w₁.answers.tail).answered w₁.answers.tail.tail).set
          (f := fun svc => { svc with s := some s }) rfl
        refine wp_bind (wp_mono (serviceStartAsyncAccept_spec hi hs₂
          (by rw [SvcWorld.svc_setSvc_self]; simp only [hsvc, hp])) (fun ok w₃ h₃ _ ht => ?_))
        have hstart : (w₃.svc i).s = some s ∧ (w₃.svc i).closing = false := by
          rw [ht.s, ht.closing, SvcWorld.svc_setSvc_self]
          exact ⟨rfl,hrest.2.1⟩
        cases ok with
        | true =>
          refine wp_return ⟨⟨ht.sockets,honly₂.trans ht.only,⟨?_,?_⟩⟩,hstart.2,?_⟩
          · rw [ht.pending, hstart.1]
            rfl
          · rw [hstart.2]
            exact nofun
          · rw [hstart.1]
            rfl
        | false =>
          refine wp_bind (wp_setService (wp_bind (wp_event (wp_return ⟨⟨?_,
            (honly₂.trans ht.only).set rfl,⟨?_,?_⟩⟩,?_,?_⟩))))
          · have hhand : Sockets n [s] (w₃.setSvc i (fun svc => { svc with s := none })) h₃ := by
              refine ht.sockets.exchange hi ?_
              simp only [Listener.sockets, hstart.1, ht.pending]
              exact List.Perm.refl _
            exact hhand.gone rfl rfl
          all_goals rw [SvcWorld.svc_setSvc_self]
          · exact ht.pending
          · rw [hstart.2]
            exact nofun
          · exact hstart.2
          · rfl

theorem serviceAsyncAccept_spec (hi : i < n) (hs : Sockets n [] w h)
    (hsome : (w.svc i).s = some s) (hp : (w.svc i).pendingWork = 0)
    (hc : (w.svc i).closing = false) : wp .nothing (serviceAsyncAccept i) (fun _ w' h' =>
      SvcSettled n i w w' h' ∧ (w'.svc i).closing = false ∧
        ((w'.svc i).s.isSome = true ∨ .out i ∈ h')) w h := by
  refine wp_bind (wp_service ?_)
  rw [hsome]
  refine wp_bind (wp_mono (acceptTries_spec _ hi hs hp) (fun ok w₁ h₁ _ ht => ?_))
  have hs₁ : (w₁.svc i).s = some s := ht.s.trans hsome
  cases ok with
  | true =>
    refine wp_return ⟨⟨ht.sockets,ht.only,⟨?_,?_⟩⟩,ht.closing.trans hc,.inl ?_⟩
    · rw [ht.pending, hs₁]
      rfl
    · rw [ht.closing, hc]
      exact nofun
    · rw [hs₁]
      rfl
  | false =>
    refine wp_bind (wp_service ?_)
    have hp₁ : (w₁.svc i).pendingWork = 0 := ht.pending
    rw [if_neg (not_not.mpr hp₁)]
    refine wp_bind (wp_mono (internalServiceClose_spec hi ht.sockets hs₁)
      (fun _ w₂ h₂ _ ⟨hs₂,hw₂⟩ => ?_))
    subst hw₂
    have honly := ht.only.set (f := fun svc => { svc with s := none, closing := false }) rfl
    refine wp_bind (wp_mono (serviceOpen_spec hi hs₂ (by rw [SvcWorld.svc_setSvc_self])
      (by rw [SvcWorld.svc_setSvc_self]; exact ⟨hp₁,nofun⟩))
      (fun ok w₃ h₃ _ ⟨hset,hclosing,hopen⟩ => ?_))
    have honly₃ := honly.trans hset.only
    cases ok with
    | true => exact wp_return ⟨⟨hset.sockets,honly₃,hset.rest⟩,hclosing,.inl hopen⟩
    | false => exact wp_event ⟨⟨hset.sockets.note rfl rfl,honly₃,hset.rest⟩,hclosing,
        .inr (List.mem_append_right _ List.mem_cons_self)⟩

/-- The completion of the accept a service has outstanding. -/
theorem serviceOnAccept_spec (err : Bool) (hi : i < n) (hs : Sockets n [] w h)
    (hr : (w.svc i).Rest) (hsome : (w.svc i).s = some s) :
    wp .nothing (serviceOnAccept i err) (fun _ w' h' => SvcSettled n i w w' h' ∧
      (w'.svc i).closing = false ∧
        ((w'.svc i).s.isSome = true ∨ .out i ∈ h' ∨ (w.svc i).closing = true)) w h := by
  have hp : (w.svc i).pendingWork = 1 := by rw [hr.pending, hsome]; rfl
  refine wp_bind (wp_setService (wp_bind (wp_service ?_)))
  -- the socket of the accept is at hand now
  have hs₁ : Sockets n [(w.svc i).acceptSocket]
      (w.setSvc i (fun svc => { svc with pendingWork := svc.pendingWork - 1 })) h := by
    refine hs.exchange hi ?_
    simp only [Listener.sockets, hsome, hp, Option.toList_some, sub_self, if_true,
      Int.one_ne_zero, if_false, List.append_nil, List.nil_append, List.singleton_append]
    exact List.Perm.swap _ _ _
  have honly := (Only.refl i w).set
    (f := fun svc => { svc with pendingWork := svc.pendingWork - 1 }) rfl
  have hsvc := w.svc_setSvc_self (i := i)
    (f := fun svc => { svc with pendingWork := svc.pendingWork - 1 })
  generalize w.setSvc i (fun svc => { svc with pendingWork := svc.pendingWork - 1 }) = w₁ at *
  have hp₁ : (w₁.svc i).pendingWork = 0 := by
    rw [hsvc]
    simp only [hp, sub_self]
  have hsome₁ : (w₁.svc i).s = some s := by rw [hsvc, hsome]
  have hclosing : (w₁.svc i).closing = (w.svc i).closing := by rw [hsvc]
  have hsocket : (w₁.svc i).acceptSocket = (w.svc i).acceptSocket := by rw [hsvc]
  rw [hclosing, hsocket, hp₁]
  by_cases hc : (w.svc i).closing = true
  · rw [if_pos hc]
    refine wp_bind (wp_event ?_)
    rw [if_pos rfl]
    refine wp_mono (internalServiceClose_spec hi (hs₁.gone rfl rfl) hsome₁)
      (fun _ w₂ h₂ _ ⟨hs₂,hw₂⟩ => ?_)
    subst hw₂
    refine ⟨⟨hs₂,honly.set rfl,?_⟩,?_,.inr (.inr hc)⟩
    all_goals rw [SvcWorld.svc_setSvc_self]
    exact ⟨hp₁,nofun⟩
  · rw [if_neg hc]
    -- one of the two events lets the socket go, and the next accept is chained
    have hnext : ∀ e : SvcEvent, e.made = none → e.gone = some (w.svc i).acceptSocket →
        wp .nothing (serviceAsyncAccept i) (fun _ w' h' => SvcSettled n i w w' h' ∧
          (w'.svc i).closing = false ∧
            ((w'.svc i).s.isSome = true ∨ .out i ∈ h' ∨ (w.svc i).closing = true))
          w₁ (h ++ [e]) := by
      intro e hm hg
      refine wp_mono (serviceAsyncAccept_spec hi (hs₁.gone hm hg) hsome₁ hp₁
        (hclosing.trans (Bool.eq_false_iff.mpr hc))) (fun _ w₂ h₂ _ ⟨hset,hcl,hor⟩ => ?_)
      exact ⟨⟨hset.sockets,honly.trans hset.only,hset.rest⟩,hcl,hor.imp_right .inl⟩
    cases err with
    | true => exact wp_bind (wp_event (hnext _ rfl rfl))
    | false => exact wp_bind (wp_event (hnext _ rfl rfl))

theorem serviceStartClosing_spec (hs : Sockets n [] w h) (hi : i < n) (hr : (w.svc i).Rest)
    (hsome : (w.svc i).s = some s) : wp .nothing (serviceStartClosing i) (fun _ w' h' =>
      SvcSettled n i w w' h' ∧ .cancelled i ∈ h') w h := by
  have hp : (w.svc i).pendingWork = 1 := by rw [hr.pending, hsome]; rfl
  refine wp_bind (wp_service ?_)
  rw [hsome]
  dsimp only
  rw [if_neg (by rw [hp]; exact Int.one_ne_zero)]
  refine wp_bind (wp_setService (wp_event ⟨⟨Sockets.note ?_ rfl rfl,(Only.refl i w).set rfl,?_⟩,
    List.mem_append_right _ List.mem_cons_self⟩))
  · exact hs.exchange hi (List.Perm.refl _)
  · rw [SvcWorld.svc_setSvc_self]
    exact ⟨hr.pending,fun _ => by rw [hsome]; rfl⟩

theorem closeServices_spec {is : List ℕ} (hnd : is.Nodup) (hlt : ∀ i ∈ is, i < n)
    (hs : Sockets n [] w h) (hsome : ∀ i ∈ is, (w.svc i).s.isSome = true) :
    wp .nothing (closeServices is) (fun _ w' h' => Sockets n [] w' h' ∧
      (∀ i ∈ is, (w'.svc i).s = none) ∧ (∀ j, j ∉ is → w'.svc j = w.svc j) ∧
        ∀ j, (w'.svc j).port = (w.svc j).port) w h := by
  induction is generalizing w h with
  | nil => exact wp_return ⟨hs,nofun,fun _ _ => rfl,fun _ => rfl⟩
  | cons i is ih =>
    obtain ⟨hi,hnd⟩ := List.nodup_cons.mp hnd
    obtain ⟨hin,hlt⟩ := List.forall_mem_cons.mp hlt
    obtain ⟨hisome,hsome⟩ := List.forall_mem_cons.mp hsome
    obtain ⟨s,hs₀⟩ := Option.isSome_iff_exists.mp hisome
    refine wp_bind (wp_mono (internalServiceClose_spec hin hs hs₀) (fun _ w₁ h₁ _ ⟨hs₁,hw₁⟩ => ?_))
    have hself := w.svc_setSvc_self (i := i) (f := fun svc => { svc with s := none, closing := false })
    have hother : ∀ j, j ≠ i → w₁.svc j = w.svc j := fun j hj => by
      rw [hw₁, SvcWorld.svc_setSvc_of_ne hj]
    rw [← hw₁] at hself
    have hne : ∀ j ∈ is, j ≠ i := fun j hj he => hi (he ▸ hj)
    refine wp_mono (ih hnd hlt hs₁ (fun j hj => by rw [hother j (hne j hj)]; exact hsome j hj))
      (fun _ w₂ h₂ _ ⟨hs₂,hnone,hrest,hport⟩ => ⟨hs₂,?_,?_,?_⟩)
    · refine List.forall_mem_cons.mpr ⟨?_,hnone⟩
      rw [hrest i hi, hself]
    · intro j hj
      rw [List.mem_cons, not_or] at hj
      rw [hrest j hj.2, hother j hj.1]
    · intro j
      rw [hport j]
      by_cases hj : j = i
      · rw [hj, hself]
      · rw [hother j hj]

/-- A service that listens, with its accept. -/
def Listener.Open (svc : Listener) : Prop :=
  svc.s.isSome = true ∧ svc.pendingWork = 1 ∧ svc.closing = false

theorem openServices_spec {opened is : List ℕ} (hnd : (opened ++ is).Nodup)
    (hlt : ∀ i ∈ opened ++ is, i < n) (hs : Sockets n [] w h)
    (hopen : ∀ i ∈ opened, (w.svc i).Open)
    (hnew : ∀ i ∈ is, (w.svc i).s = none ∧ (w.svc i).Rest) :
    wp .nothing (openServices opened is) (fun ok w' h' => Sockets n [] w' h' ∧
      (∀ i ∈ opened ++ is, if ok then (w'.svc i).Open else (w'.svc i).s = none) ∧
        ∀ j, (w'.svc j).port = (w.svc j).port) w h := by
  induction is generalizing opened w h with
  | nil =>
    refine wp_return ⟨hs,fun i hi => ?_,fun _ => rfl⟩
    rw [List.append_nil] at hi
    exact hopen i hi
  | cons i is ih =>
    obtain ⟨⟨hnone,hr⟩,hnew⟩ := List.forall_mem_cons.mp hnew
    have hperm : (opened ++ i :: is).Perm (i :: opened ++ is) := List.perm_middle
    have hnd' := hperm.nodup_iff.mp hnd
    have hnotin : i ∉ opened ++ is := (List.nodup_cons.mp hnd').1
    rw [List.mem_append, not_or] at hnotin
    have hin : i < n := hlt i (hperm.mem_iff.mpr List.mem_cons_self)
    refine wp_bind (wp_mono (serviceOpen_spec hin hs hnone hr)
      (fun ok w₁ h₁ _ ⟨hset,hclosing,hsome⟩ => ?_))
    have hopen₁ : ∀ j ∈ opened, (w₁.svc j).Open := fun j hj => by
      rw [hset.only.other j (fun he => hnotin.1 (he ▸ hj))]
      exact hopen j hj
    have hnew₁ : ∀ j ∈ is, (w₁.svc j).s = none ∧ (w₁.svc j).Rest := fun j hj => by
      rw [hset.only.other j (fun he => hnotin.2 (he ▸ hj))]
      exact hnew j hj
    have hport : ∀ j, (w₁.svc j).port = (w.svc j).port := fun j => by
      by_cases hj : j = i
      · rw [hj, hset.only.port]
      · rw [hset.only.other j hj]
    cases ok with
    | true =>
      refine wp_mono (ih hnd' (fun j hj => hlt j (hperm.mem_iff.mpr hj)) hset.sockets
        (List.forall_mem_cons.mpr ⟨⟨hsome,?_,hclosing⟩,hopen₁⟩) hnew₁)
        (fun ok w₂ h₂ _ ⟨hs₂,hall,hport₂⟩ => ⟨hs₂,?_,fun j => (hport₂ j).trans (hport j)⟩)
      · rw [hset.rest.pending, hsome]
        rfl
      · exact fun j hj => hall j (hperm.mem_iff.mp hj)
    | false =>
      refine wp_bind (wp_mono (closeServices_spec (List.nodup_append.mp hnd).1
        (fun j hj => hlt j (List.mem_append_left _ hj)) hset.sockets (fun j hj => (hopen₁ j hj).1))
        (fun _ w₂ h₂ _ ⟨hs₂,hnone₂,hrest,hport₂⟩ =>
          wp_return ⟨hs₂,fun j hj => ?_,fun j => (hport₂ j).trans (hport j)⟩))
      rw [if_neg Bool.false_ne_true]
      by_cases hjo : j ∈ opened
      · exact hnone₂ j hjo
      · rw [hrest j hjo]
        rcases List.mem_cons.mp ((List.mem_append.mp hj).resolve_left hjo) with rfl | hji
        · exact Option.isSome_eq_false_iff.mp hsome |> Option.isNone_iff_eq_none.mp
        · exact (hnew₁ j hji).1

end Specs

/-! ## Runs -/

/-- Registered services that have not been opened. -/
def SvcWorld.initial (ports : ℕ → ℤ) (answers : List Bool) : SvcWorld :=
  ⟨fun i => ⟨none,false,0,ports i,0⟩,answers,0⟩

inductive SvcAction where
  /-- the completion of the accept a service has outstanding -/
  | onAccept (i : ℕ) (err : Bool)
  | startClosing (i : ℕ)

def SvcAction.perform : SvcAction → SvcProg Unit
  | .onAccept i err => serviceOnAccept i err
  | .startClosing i => serviceStartClosing i

def SvcAction.Enabled (n : ℕ) (w : SvcWorld) : SvcAction → Prop
  | .onAccept i _ => i < n ∧ 0 < (w.svc i).pendingWork
  | .startClosing i => i < n ∧ (w.svc i).s.isSome = true

/-- One action, whatever the OS answers. -/
inductive SvcStep (n : ℕ) : SvcWorld × List SvcEvent → List SvcEvent →
    SvcWorld × List SvcEvent → Prop
  | act {w w' : SvcWorld} {h es : List SvcEvent} {a : SvcAction} {x : List Bool} :
      a.Enabled n w → a.perform { w with answers := x } = (some (),w',es) →
        SvcStep n (w,h) es (w',h ++ es)

/-- The states of a server with `n` services whose `svcmgr_init` has succeeded. -/
def SvcReachable (n : ℕ) (ports : ℕ → ℤ) (w : SvcWorld) (h : List SvcEvent) : Prop :=
  ∃ x w₀ h₀ es, svcmgrInit n (.initial ports x) = (some true,w₀,h₀) ∧
    Run (SvcStep n) (w₀,h₀) es (w,h)

/-- What holds between the completions. -/
structure Listening (n : ℕ) (ports : ℕ → ℤ) (w : SvcWorld) (h : List SvcEvent) : Prop where
  sockets : Sockets n [] w h
  rest : ∀ i < n, (w.svc i).Rest
  told : ∀ i < n, (w.svc i).s.isSome = true ∨ .out i ∈ h ∨ .cancelled i ∈ h
  asked : ∀ i < n, (w.svc i).closing = true → .cancelled i ∈ h
  ports : ∀ i, (w.svc i).port = ports i

section Runs
variable {n : ℕ} {ports : ℕ → ℤ} {w w' : SvcWorld} {h h' es : List SvcEvent} {a : SvcAction}
  {i : ℕ}

theorem sockets_initial (n : ℕ) (ports : ℕ → ℤ) (x : List Bool) :
    Sockets n [] (.initial ports x) [] := ⟨Custody.nothing n,nofun⟩

theorem svcmgrInit_spec (n : ℕ) (ports : ℕ → ℤ) (x : List Bool) :
    wp .nothing (svcmgrInit n) (fun ok w h => Sockets n [] w h ∧
      (∀ i < n, if ok then (w.svc i).Open else (w.svc i).s = none) ∧
        ∀ i, (w.svc i).port = ports i) (.initial ports x) [] := by
  refine wp_mono (openServices_spec (n := n) List.nodup_range
    (fun i hi => List.mem_range.mp hi) (sockets_initial n ports x) nofun
    (fun i _ => ⟨rfl,rfl,nofun⟩)) (fun ok w h _ ⟨hs,hall,hport⟩ => ⟨hs,?_,hport⟩)
  exact fun i hi => hall i (List.mem_range.mpr hi)

/-- A service that changes from rest to rest keeps what holds of all of them. -/
theorem Listening.settled (hl : Listening n ports w h) (hset : SvcSettled n i w w' h')
    (hgrow : h <+: h') (htold : (w'.svc i).s.isSome = true ∨ .out i ∈ h' ∨ .cancelled i ∈ h')
    (hasked : (w'.svc i).closing = true → .cancelled i ∈ h') : Listening n ports w' h' := by
  refine ⟨hset.sockets,fun j hj => ?_,fun j hj => ?_,fun j hj => ?_,fun j => ?_⟩
  all_goals by_cases hji : j = i
  · exact hji ▸ hset.rest
  · rw [hset.only.other j hji]
    exact hl.rest j hj
  · exact hji ▸ htold
  · rw [hset.only.other j hji]
    exact (hl.told j hj).imp_right (Or.imp (hgrow.subset ·) (hgrow.subset ·))
  · exact hji ▸ hasked
  · rw [hset.only.other j hji]
    exact fun hc => hgrow.subset (hl.asked j hj hc)
  · rw [hji, hset.only.port, hl.ports]
  · rw [hset.only.other j hji, hl.ports]

/-- No action fails an assertion, and the services stay as they should be. -/
theorem Listening.perform (hl : Listening n ports w h) (ha : a.Enabled n w) (x : List Bool) :
    wp .nothing a.perform (fun _ w' h' => Listening n ports w' h') { w with answers := x } h := by
  have hs := hl.sockets.answered x
  cases a with
  | onAccept i err =>
    obtain ⟨hi,hp⟩ := ha
    have hsome : (w.svc i).s.isSome = true := by
      by_contra hne
      rw [(hl.rest i hi).pending, if_neg hne] at hp
      exact Int.lt_irrefl _ hp
    obtain ⟨s,hs₀⟩ := Option.isSome_iff_exists.mp hsome
    refine wp_mono (wp_grows (serviceOnAccept_spec err hi hs (hl.rest i hi) hs₀))
      (fun _ w' h' _ ⟨hgrow,hset,hclosing,hor⟩ => ?_)
    refine hl.settled (i := i) ⟨hset.sockets,⟨hset.only.other,hset.only.port⟩,hset.rest⟩ hgrow
      (hor.imp_right (Or.imp_right (fun hc => hgrow.subset (hl.asked i hi hc)))) ?_
    rw [hclosing]
    exact nofun
  | startClosing i =>
    obtain ⟨hi,hsome⟩ := ha
    obtain ⟨s,hs₀⟩ := Option.isSome_iff_exists.mp hsome
    refine wp_mono (wp_grows (serviceStartClosing_spec hs hi (hl.rest i hi) hs₀))
      (fun _ w' h' _ ⟨hgrow,hset,hcan⟩ => ?_)
    exact hl.settled (i := i) ⟨hset.sockets,⟨hset.only.other,hset.only.port⟩,hset.rest⟩ hgrow
      (.inr (.inr hcan)) (fun _ => hcan)

theorem wp_some {α : Type} {x : SvcProg α} {Q : α → SvcWorld → List SvcEvent → Prop} {a : α}
    (hx : wp .nothing x Q w h) (hr : x w = (some a,w',es)) : Q a w' (h ++ es) := by
  have hq := hx trivial
  rw [hr] at hq
  exact hq

theorem wp_isSome {α : Type} {x : SvcProg α} {Q : α → SvcWorld → List SvcEvent → Prop}
    (hx : wp .nothing x Q w h) : (x w).1.isSome = true := by
  have hq := hx trivial
  cases hr : (x w).1 with
  | none =>
    rw [hr] at hq
    exact hq.elim
  | some a => rfl

theorem listening_reachable (hr : SvcReachable n ports w h) : Listening n ports w h := by
  obtain ⟨x,w₀,h₀,es,hinit,hrun⟩ := hr
  obtain ⟨hs,hopen,hport⟩ := wp_some (svcmgrInit_spec n ports x) hinit
  have hstart : Listening n ports w₀ h₀ := by
    refine ⟨hs,fun i hi => ⟨?_,?_⟩,fun i hi => .inl (hopen i hi).1,fun i hi => ?_,hport⟩
    · rw [(hopen i hi).2.1, (hopen i hi).1]
      rfl
    all_goals
      rw [(hopen i hi).2.2]
      exact nofun
  refine hrun.invariant (I := fun t => Listening n ports t.1 t.2) hstart ?_
  rintro _ _ _ hl ⟨ha,hperf⟩
  have hstep := wp_some (hl.perform ha _) hperf
  exact hstep

/-- Only services that listen are closed without a crash. -/
theorem closeServices_lenient (is : List ℕ) : wp .lenient (closeServices is)
    (fun _ _ _ => ∀ i ∈ is, (w.svc i).s.isSome = true) w h := by
  induction is generalizing w h with
  | nil => exact wp_pure (fun _ => nofun)
  | cons i is ih =>
    refine wp_bind (wp_bind (wp_service ?_))
    cases hs : (w.svc i).s with
    | none => exact wp_crash trivial
    | some s =>
      refine wp_bind (wp_emit (fun _ => wp_setService (wp_mono ih (fun _ _ _ _ hall => ?_))))
      refine List.forall_mem_cons.mpr ⟨by rw [hs]; rfl,fun j hj => ?_⟩
      by_cases hji : j = i
      · rw [hji, hs]
        rfl
      · have hj := hall j hj
        rwa [SvcWorld.svc_setSvc_of_ne hji] at hj

theorem svcmgrShutdown_iff (hl : Listening n ports w h) :
    (svcmgrShutdown n w).1 = some () ↔ ∀ i < n, (w.svc i).s.isSome = true := by
  constructor
  · intro hr i hi
    have hq := closeServices_lenient (w := w) (h := h) (List.range n) trivial
    rw [show (closeServices (List.range n) w).1 = some () from hr] at hq
    exact hq i (List.mem_range.mpr hi)
  · intro hall
    have hsome := wp_isSome (closeServices_spec List.nodup_range
      (fun i hi => List.mem_range.mp hi) hl.sockets (fun i hi => hall i (List.mem_range.mp hi)))
    obtain ⟨u,hu⟩ := Option.isSome_iff_exists.mp hsome
    exact hu

/-- What becomes of the services: they run, or opening them has failed, or they were shut down. -/
inductive SvcOutcome (n : ℕ) (ports : ℕ → ℤ) : Bool → SvcWorld → List SvcEvent → Prop
  | running {w : SvcWorld} {h : List SvcEvent} : SvcReachable n ports w h →
      SvcOutcome n ports true w h
  | failed {w : SvcWorld} {h : List SvcEvent} {x : List Bool} :
      svcmgrInit n (.initial ports x) = (some false,w,h) → SvcOutcome n ports false w h
  | shutdown {w w' : SvcWorld} {h es : List SvcEvent} : SvcReachable n ports w h →
      svcmgrShutdown n w = (some (),w',es) → SvcOutcome n ports false w' (h ++ es)

/-- A socket is made once, and is closed or handed over once, or is with one service. -/
structure SocketsKept (n : ℕ) (w : SvcWorld) (h : List SvcEvent) : Prop where
  made : (h.filterMap SvcEvent.made).Nodup
  gone : (h.filterMap SvcEvent.gone).Nodup
  kept : ∀ s ∈ h.filterMap SvcEvent.made, s ∉ h.filterMap SvcEvent.gone →
    ∃! i, i < n ∧ s ∈ (w.svc i).sockets
  live : ∀ i < n, ∀ s ∈ (w.svc i).sockets,
    s ∈ h.filterMap SvcEvent.made ∧ s ∉ h.filterMap SvcEvent.gone

theorem Sockets.kept (hs : Sockets n [] w h) : SocketsKept n w h where
  made := hs.custody.once
  gone := hs.custody.gone_nodup
  kept _ hm hg := hs.custody.keeper hm hg
  live _ hi _ hx := ⟨(hs.custody.kept_spec hi hx).1,(hs.custody.kept_spec hi hx).2.1⟩

/-- No socket is lost or closed twice, also where opening fails or an accept does; when the
services are down none of them listens. -/
theorem services_keepSockets {up : Bool} (ho : SvcOutcome n ports up w h) :
    SocketsKept n w h ∧ (up = false → ∀ i < n, (w.svc i).s = none) := by
  cases ho with
  | running hr => exact ⟨(listening_reachable hr).sockets.kept,nofun⟩
  | failed hinit =>
    obtain ⟨hs,hnone,_⟩ := wp_some (svcmgrInit_spec n ports _) hinit
    exact ⟨Sockets.kept hs,fun _ => hnone⟩
  | shutdown hr hdown =>
    have hl := listening_reachable hr
    have hall := (svcmgrShutdown_iff hl).mp (congrArg Prod.fst hdown)
    obtain ⟨hs,hnone,_⟩ := wp_some (closeServices_spec List.nodup_range
      (fun i hi => List.mem_range.mp hi) hl.sockets
      (fun i hi => hall i (List.mem_range.mp hi))) hdown
    exact ⟨Sockets.kept hs,fun _ i hi => hnone i (List.mem_range.mpr hi)⟩

end Runs

/-! ## A service that goes out -/

/-- One service, opened, whose next accept fails and is not started again. -/
def openedService : SvcWorld :=
  (svcmgrInit 1 (.initial (fun _ => 7171) (List.replicate 7 true))).2.1

def openedLog : List SvcEvent :=
  (svcmgrInit 1 (.initial (fun _ => 7171) (List.replicate 7 true))).2.2

theorem openedService_reachable : SvcReachable 1 (fun _ => 7171) openedService openedLog :=
  ⟨List.replicate 7 true,openedService,openedLog,[],rfl,.start⟩

/-- The accept completes with an error and no call succeeds after it. -/
def serviceOut : SvcWorld × List SvcEvent :=
  ((serviceOnAccept 0 true { openedService with answers := [] }).2.1,
    openedLog ++ (serviceOnAccept 0 true { openedService with answers := [] }).2.2)

theorem serviceOut_reachable : SvcReachable 1 (fun _ => 7171) serviceOut.1 serviceOut.2 := by
  have ha : (SvcAction.onAccept 0 true).Enabled 1 openedService := ⟨Nat.one_pos,by decide⟩
  exact ⟨List.replicate 7 true,openedService,openedLog,_,rfl,
    Run.start.step (.act (x := []) ha rfl)⟩

/-- The accept socket of the last accept is left when the services are shut down. -/
theorem services_keepSockets_shutdown :
    SocketsKept 1 (svcmgrShutdown 1 openedService).2.1
        (openedLog ++ (svcmgrShutdown 1 openedService).2.2) ∧
      (∀ i < 1, ((svcmgrShutdown 1 openedService).2.1.svc i).s = none) ∧
      ((svcmgrShutdown 1 openedService).2.1.svc 0).sockets = [1] := by
  obtain ⟨hkept,hnone⟩ := services_keepSockets (.shutdown openedService_reachable rfl)
  exact ⟨hkept,hnone rfl,by decide⟩

end Kaplar.Server
