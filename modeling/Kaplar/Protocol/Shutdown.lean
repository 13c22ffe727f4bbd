import Kaplar.Protocol.OwnershipRun
import Kaplar.Server.ConnShutdown

/-! # What a shutdown leaves behind

When the server thread has ended the connections are closed with whatever they hold. What
is left belongs to logins that are still under way, or is idle.
-/
namespace Kaplar.Protocol
open Kaplar.Server Program
variable {E : Setting} {D : Deployment} {d : ℕ} {w w' : World Shared} {h : List ConnEvent}
  {p : Shared}

theorem services_silentClose (n : ℕ) (c : UInt32) :
    (((services E D).protocol n).onClose c).Silent := by
  show (((D.kind n).protocol E).onClose c).Silent
  cases D.kind n with
  | game => trivial
  | echo =>
    intro udata
    dsimp only
    split <;> exact fun _ => trivial
  | login =>
    intro udata
    dsimp only
    split
    · exact fun _ => trivial
    · trivial
    · exact fun _ => trivial

/-- The output of a login on its way. -/
def Shared.Promised (p : Shared) (a : ℕ) : Prop :=
  ∃ l ∈ p.inFlight, ∃ b, p.loginAt l = some b ∧ b.output = some a

/-- Only logins on their way and the list of idle outbufs hold anything. -/
structure Drained (p : Shared) : Prop where
  sane : p.record.misused = false
  held : ∀ a, p.Live a → a ∈ p.idle ∨ a ∈ p.inFlight ∨ p.Promised a
  promised : ∀ a, p.Promised a →
    (p.record.acquired.map Prod.fst).count a = p.record.released.count a + 1
  released : ∀ a, ¬ p.Promised a →
    (p.record.acquired.map Prod.fst).count a = p.record.released.count a

namespace Owned
variable {kind : ℕ → Kind}

/-- Without connections nobody else is left. -/
theorem held (ho : Owned kind .empty p (fun _ => none)) {a : ℕ} (ha : p.Live a) :
    a ∈ p.idle ∨ a ∈ p.inFlight ∨ p.Promised a := by
  obtain ⟨k,hk,-⟩ := ho.exclusive.existsUnique ha
  cases k with
  | pool => exact .inl hk
  | flight => exact .inr (.inl hk)
  | login l =>
    obtain ⟨-,b,hb,hout⟩ := hk
    exact .inr (.inr ⟨l,ho.login_flight hb,b,ho.loginAt hb,hout⟩)
  | conn uid =>
    obtain ⟨i,f,hf,-⟩ := hk
    cases hf

theorem promised_iff (ho : Owned kind .empty p (fun _ => none)) {a : ℕ} :
    p.Promised a ↔ (p.outbufAt a).isSome = true := by
  constructor
  · rintro ⟨l,-,b,hb,hout⟩
    have hheap := (heap_of_block (loginAt_eq.mp hb)).2
    refine outbufAt_isSome.mpr ⟨fun hidle => ?_,(ho.logins.output l b a nofun hheap hout).1⟩
    have hpool : Holds .empty p (fun _ => none) .pool a := hidle
    have hlogin : Holds .empty p (fun _ => none) (.login l) a := ⟨nofun,b,hheap,hout⟩
    exact ho.exclusive.ne hpool hlogin nofun rfl
  · intro hs
    obtain ⟨hidle,b,hb⟩ := outbufAt_isSome.mp hs
    refine ((ho.held (live_of_block hb (by simp))).resolve_left hidle).resolve_left (fun hm => ?_)
    obtain ⟨b',hb'⟩ := ho.logins.flight a hm
    rw [hb] at hb'
    cases hb'

theorem drained (ho : Owned kind .empty p (fun _ => none)) : Drained p := by
  refine ⟨ho.sane,fun a => ho.held,fun a ha => ?_,fun a ha => ?_⟩
  · rw [ho.logins.acquired a, if_pos (ho.promised_iff.mp ha)]
  · rw [ho.logins.acquired a, if_neg (fun hs => ha (ho.promised_iff.mpr hs)), Nat.add_zero]

end Owned

/-- In whatever state the server thread has stopped, the shutdown does not crash, ends every
connection and leaves no block with any of them. -/
theorem connmgrShutdown_drains
    (hr : Reachable (services E D) d (Login.usage E) Shared.initial w h) :
    ∃ w' es, (services E D).connmgrShutdown d w = (some (),w',es) ∧
      ClosedDown (services E D) w h w' (h ++ es) ∧ Drained w'.priv := by
  obtain ⟨hg,ho⟩ := owned_reachable hr
  have hslot : Slotted w.face := by
    intro i f hf
    obtain ⟨hi,rfl⟩ := World.inuse_of_face hf
    exact (hg.managed.kept.wf.used i hi).2
  have hclose := hg.connmgrShutdown (d := d) (J := Upheld (Owned D.kind .empty))
    services_silentClose (fun hi hu => (upholds E D).closeOperation hu hi _) ⟨hslot,ho⟩ trivial
  rcases hrun : (services E D).connmgrShutdown d w with ⟨r,w',es⟩
  rw [hrun] at hclose
  cases r with
  | none => exact hclose.elim
  | some u =>
    obtain ⟨hdown,-,ho'⟩ := hclose
    have hface : w'.face = fun _ => none := funext fun i => World.face_of_free (hdown.unused i)
    rw [hface] at ho'
    exact ⟨w',es,rfl,hdown,ho'.drained⟩

/-- An answer is still being written when the server stops; its outbuf is given back. -/
theorem connmgrShutdown_drains_refused : afterRefusal.ops 0 = [⟨0,.write 2 46⟩] ∧
    ∃ w' es, (services crowded onlyLogins).connmgrShutdown 0 afterRefusal = (some (),w',es) ∧
      ClosedDown (services crowded onlyLogins) afterRefusal
        ((services crowded onlyLogins).play 0 refused Shared.initial).2 w'
        (((services crowded onlyLogins).play 0 refused Shared.initial).2 ++ es) ∧
      Drained w'.priv :=
  ⟨by decide +kernel,connmgrShutdown_drains refused_reachable⟩

end Kaplar.Protocol
