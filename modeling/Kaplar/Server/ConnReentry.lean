import Kaplar.Server.ConnLifecycle

/-! # Callbacks that close their own connection

A callback may close its connection while it runs. With something outstanding that is
only a mark. With nothing outstanding the connection is closed and its slot freed before
the callback returns, and the handler that called it still holds on to the slot.
-/
namespace Kaplar.Server
open Program
variable {σ : Type}

/-- What callbacks may do for closing to be safe: `on_close` starts and closes nothing, and a
callback that has closed its connection for good returns nothing the handler acts on. -/
def Permitted (h : List ConnEvent) : ConnEvent → Prop
  | .asked s => ∀ uid, .called s uid .close ∉ h
  | .started s _ => (∃ uid, .called s uid .close ∈ h) → .closesocket s ∈ h
  | .assigned s _ => ¬ Quit s h
  | .returned s k st => Quit s h → harmless k st = true
  | _ => True

/-- After a history each event is permitted. -/
def CarefulFrom (h : List ConnEvent) : List ConnEvent → Prop
  | [] => True
  | e :: es => Permitted h e ∧ CarefulFrom (h ++ [e]) es

def Careful (h : List ConnEvent) : Prop := CarefulFrom [] h

/-- Each connection has one end. -/
structure EndsOnce (w : World σ) (h : List ConnEvent) : Prop where
  onClose : ∀ s, endings .closed (history s h) ≤ 1
  once : ∀ {s svc : ℕ} {uid : UInt32}, .accepted s uid svc ∈ h →
    (∃ i, w.inuse i ∧ (w.table.ctl i).s = s ∧ endings .shut (history s h) = 0 ∧
      endings .gone (history s h) = 0) ∨
    endings .shut (history s h) = 1 ∧ endings .gone (history s h) = 1
  after : ∀ {s : ℕ} {h₁ h₂ : List ConnEvent} {e : ConnEvent}, history s h = h₁ ++ e :: h₂ →
    e.ends ≠ 0 → ∀ op, .started s op ∉ h₂
  free : ∃ free, w.table.FreeChain free ∧ free.Nodup

section Careful
variable {S : Services σ} {d : ℕ} {U : Usage σ} {q : σ} {w : World σ} {h es : List ConnEvent}

theorem carefulFrom_append {h₀ : List ConnEvent} :
    CarefulFrom h₀ (h ++ es) ↔ CarefulFrom h₀ h ∧ CarefulFrom (h₀ ++ h) es := by
  induction h generalizing h₀ with
  | nil =>
    rw [List.append_nil]
    exact iff_of_eq (true_and _).symm
  | cons e h ih =>
    rw [List.cons_append, CarefulFrom, CarefulFrom, ih, List.append_assoc, and_assoc]
    rfl

theorem Careful.start (hc : Careful (h ++ es)) : Careful h := (carefulFrom_append.mp hc).1

theorem Careful.permitted {e : ConnEvent} (hc : Careful (h ++ [e])) : Permitted h e :=
  (carefulFrom_append.mp hc).2.1

/-- A connection that has not been asked to close has not been asked to quit. -/
theorem not_quit {s : ℕ} (hn : .asked s ∉ h) : ¬ Quit s h := by
  rintro ⟨h₁,h₂,rfl,_⟩
  exact hn (List.mem_append_right _ List.mem_cons_self)

/-- Careful callbacks obey, whatever else is relied on. -/
theorem obeys_of_careful (S : Services σ) {A : Rely ConnEvent}
    (hA : ∀ {h}, A.holds h → Careful h) (hF : ∀ h s, A.holds (h ++ [.faulted s]) → A.mayCrash)
    (hstop : ∀ h s k, A.holds (h ++ [.returned s k .stopReading]) →
      k.isMessage = true ∨ A.mayCrash) : Obeys A S := by
  refine ⟨hF,?_,hstop,.inr ⟨?_,?_⟩⟩
  · intro p close w h i _ hs hcalled hopen
    refine wp_exec_plain hF hs rfl (.inr ⟨?_,?_⟩)
    · exact fun hc => (hA hc).permitted _ hcalled
    · exact fun op hc => hopen ((hA hc).permitted ⟨_,hcalled⟩)
  · exact fun h s ok hquit hc => (hA hc).permitted hquit
  · exact fun h s k st hquit hc => (hA hc).permitted hquit

/-- Careful callbacks are relied on. -/
def Rely.careful : Rely ConnEvent := ⟨fun h => Careful h,fun hc => hc.start,True⟩

theorem obeys_careful (S : Services σ) : Obeys Rely.careful S :=
  obeys_of_careful S id (fun _ _ _ => trivial) (fun _ _ _ _ => .inr trivial)

theorem ends_ge {e : ConnEvent} (he : e.ends ≠ 0) : 6 ≤ e.ends := by
  cases e with
  | called s uid k =>
    cases k with
    | close => exact Nat.le_refl 6
    | _ => exact absurd rfl he
  | closesocket s => exact Nat.le_of_ble_eq_true rfl
  | freed s slot => exact Nat.le_of_ble_eq_true rfl
  | _ => exact absurd rfl he

theorem Good.endsOnce (hg : Good S w h) : EndsOnce w h := by
  have hm := hg.managed
  obtain ⟨free,hfree⟩ := hm.kept.wf.free
  refine ⟨?_,?_,?_,free,hfree,hfree.chain.nodup⟩
  · intro s
    obtain ⟨l,hl⟩ := hm.lived s
    refine Nat.le_trans (life_ends_le hl nofun) ?_
    split
    · exact Nat.le_refl 1
    · exact Nat.zero_le 1
  · intro s svc uid ha
    by_cases hused : ∃ i, w.inuse i ∧ (w.table.ctl i).s = s
    · obtain ⟨i,hi,rfl⟩ := hused
      obtain ⟨l,ho⟩ := hm.conn i hi
      have hlive := Stage.rank_of_live ho.linked.live
      have hnone : ∀ stage : Stage, 6 ≤ stage.rank →
          endings stage (history (w.table.ctl i).s h) = 0 := by
        intro stage hr
        have hle := life_ends_le ho.life (r := stage.rank) (by omega)
        rw [if_neg (by omega)] at hle
        exact Nat.le_zero.mp hle
      exact .inl ⟨i,hi,rfl,hnone .shut (Nat.le_of_ble_eq_true rfl),
        hnone .gone (Nat.le_of_ble_eq_true rfl)⟩
    · obtain ⟨⟨l,hl,hst,_⟩,_⟩ := hm.retired s (hm.future _ ha)
        (fun i hi hse => hused ⟨i,hi,hse⟩)
      have hall : ∀ stage : Stage, 7 ≤ stage.rank → stage.rank ≤ 8 →
          endings stage (history s h) = 1 :=
        fun stage hr hle => life_ends_eq hl hr (by rw [hst]; exact hle)
      exact .inr ⟨hall .shut (Nat.le_refl 7) (Nat.le_of_ble_eq_true rfl),
        hall .gone (Nat.le_of_ble_eq_true rfl) (Nat.le_refl 8)⟩
  · intro s h₁ h₂ e hh he op
    obtain ⟨l,hl⟩ := hm.lived s
    rw [hh] at hl
    exact started_not_after hl (ends_ge he) s op

/-- In every run of careful callbacks each connection is closed and freed once, with nothing
started on it afterwards, and the free list stays in order. -/
theorem closing_reentrant (hr : Reachable S d U q w h) (hc : Careful h) : EndsOnce w h :=
  ((obeys_careful S).serves.reachable trivial hr hc).1.endsOnce

end Careful

/-- A protocol that closes its connection on the first message. -/
def closing (st : Status) : Protocol Unit := { answering with
  onRecvFirstMessage := fun _ _ => .close false (.ret st) }

/-- A message of one byte, with nothing left to wait for. -/
def hurried : List (Action Unit × List Bool) :=
  [(.accept 0,[true]),(.complete 0 ⟨0,.readLength⟩ false 2 [1,0],[true]),
    (.complete 0 ⟨0,.readBody 1⟩ false 1 [7],[])]

theorem hurried_plays (st : Status) (hst : st = .stopReading ∨ st = .close) :
    Plays (onlyProtocol (closing st)) 0 .any hurried (World.initial (),[]) := by
  rcases hst with rfl | rfl
  · exact ⟨fun _ _ _ => id,rfl,⟨by decide,.read rfl rfl⟩,rfl,⟨by decide,.read rfl rfl⟩,rfl,trivial⟩
  · exact ⟨fun _ _ _ => id,rfl,⟨by decide,.read rfl rfl⟩,rfl,⟨by decide,.read rfl rfl⟩,rfl,trivial⟩

theorem hurried_careful :
    Careful ((onlyProtocol (closing .stopReading)).play 0 hurried ()).2 := by
  have hlog : ((onlyProtocol (closing .stopReading)).play 0 hurried ()).2 =
      [.accepted 0 65536 0,.started 0 .readLength,.completed 0 .readLength [1,0],
        .started 0 (.readBody 1),.completed 0 (.readBody 1) [7],.called 0 65536 .assign,
        .assigned 0 true,.called 0 65536 (.recvFirst [7]),.asked 0,.called 0 65536 .close,
        .closesocket 0,.freed 0 0,.returned 0 (.recvFirst [7]) .stopReading] := by decide
  rw [hlog]
  refine ⟨trivial,?_,trivial,?_,trivial,trivial,not_quit (by decide),trivial,?_,trivial,trivial,
    trivial,fun _ => rfl,trivial⟩
  · rintro ⟨uid,hm⟩
    simp at hm
  · rintro ⟨uid,hm⟩
    simp at hm
  · intro uid hm
    simp at hm

theorem closing_reentrant_stopped :
    EndsOnce ((onlyProtocol (closing .stopReading)).play 0 hurried ()).1
      ((onlyProtocol (closing .stopReading)).play 0 hurried ()).2 :=
  closing_reentrant (hurried_plays .stopReading (.inl rfl)).reachable hurried_careful

/-- The handler closes the connection that its callback has closed. -/
theorem closing_not_reentrant : ¬ ∀ (S : Services Unit) (d : ℕ) (w : World Unit)
    (h : List ConnEvent), Reachable S d .any () w h → EndsOnce w h := by
  intro hall
  have hends := hall _ 0 _ _ (hurried_plays .close (.inr rfl)).reachable
  have htwice : endings .shut
      (history 0 ((onlyProtocol (closing .close)).play 0 hurried ()).2) = 2 := by decide
  have hacc : ConnEvent.accepted 0 65536 0 ∈
      ((onlyProtocol (closing .close)).play 0 hurried ()).2 := by decide
  rcases hends.once hacc with ⟨_,_,_,hn,_⟩ | ⟨hn,_⟩
  · rw [htwice] at hn
    cases hn
  · rw [htwice] at hn
    cases hn

end Kaplar.Server
