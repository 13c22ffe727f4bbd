import Kaplar.Server.ConnRun

/-! # The life of a connection, in every run

What the slots and the histories of the connections say in the states a server comes to.
All of it rests on `on_close` not sending: it is called with nothing outstanding, right
before the socket is closed and the slot is freed.
-/
namespace Kaplar.Server
open Program
variable {σ : Type}

/-- How often a connection has been led to a stage of its end: by `on_close`, by `closesocket`
or by its release. -/
def endings (stage : Stage) (h : List ConnEvent) : ℕ := h.countP (fun e => e.ends = stage.rank)

/-- The accounts of a slot in use. -/
structure SlotAccounts (w : World σ) (h : List ConnEvent) (i : ℕ) : Prop where
  outstanding : (w.past i h).countP ConnEvent.starts =
    (w.past i h).countP ConnEvent.completes + (w.ops i).length
  pending : (w.table.ctl i).pendingWork = (w.ops i).length
  reads : (w.ops i).countP (fun p => p.op.isRead) ≤ 1
  writes : (w.ops i).countP (fun p => p.op.isWrite) ≤ 1
  closing : (w.table.ctl i).flags.closing = true → 0 < (w.table.ctl i).pendingWork

structure Accounted (w : World σ) (h : List ConnEvent) : Prop where
  slot : ∀ i, w.inuse i → SlotAccounts w h i
  free : ∀ i, ¬ w.inuse i → w.ops i = []
  closed : ∀ s, endings .shut (history s h) ≤ 1
  freed : ∀ s, endings .gone (history s h) ≤ 1
  idle : ∀ {s : ℕ} {h₁ h₂ : List ConnEvent} {e : ConnEvent}, history s h = h₁ ++ e :: h₂ →
    e.ends = Stage.rank .shut ∨ e.ends = Stage.rank .gone → Idle h₁

/-- The callbacks of one connection and the bodies they were handed. -/
structure InOrder (first : Bool) (h : List ConnEvent) : Prop where
  order : CallbackOrder first (calls h) (answers h)
  flows : Flows h

section Good
variable {S : Services σ} {w : World σ} {h : List ConnEvent}

/-- Every socket has a life. -/
theorem Managed.lived (hm : Managed S w h) (s : ℕ) :
    ∃ l, life S.serviceSendsFirst (history s h) = some l := by
  by_cases hs : w.nextSocket ≤ s
  · rw [history_future hm hs]
    exact ⟨_,rfl⟩
  by_cases hused : ∃ i, w.inuse i ∧ (w.table.ctl i).s = s
  · obtain ⟨i,hi,rfl⟩ := hused
    obtain ⟨l,ho⟩ := hm.conn i hi
    exact ⟨l,ho.life⟩
  · obtain ⟨⟨l,hl,_⟩,_⟩ := hm.retired s (Nat.lt_of_not_le hs)
      (fun i hi hse => hused ⟨i,hi,hse⟩)
    exact ⟨l,hl⟩

theorem Good.slotAccounts (hg : Good S w h) {i : ℕ} (hi : w.inuse i) : SlotAccounts w h i := by
  obtain ⟨l,ho⟩ := hg.managed.conn i hi
  refine ⟨?_,ho.pending,ho.reads,ho.writes,fun hc => ?_⟩
  · rw [← ho.outstanding]
    exact life_count ho.life
  · have hne := (hg.settled i hi l ho.life).1 hc
    rw [ho.pending]
    exact Int.natCast_pos.mpr (List.length_pos_iff.mpr hne)

theorem Good.accounted (hg : Good S w h) : Accounted w h := by
  have hends : ∀ (s : ℕ) {stage : Stage}, stage.rank ≠ 0 → endings stage (history s h) ≤ 1 := by
    intro s stage hne
    obtain ⟨l,hl⟩ := hg.managed.lived s
    refine Nat.le_trans (life_ends_le hl hne) ?_
    split
    · exact Nat.le_refl 1
    · exact Nat.zero_le 1
  refine ⟨fun _ hi => hg.slotAccounts hi,hg.managed.idle,fun s => hends s nofun,
    fun s => hends s nofun,?_⟩
  intro s h₁ h₂ e hh he
  obtain ⟨l,hl⟩ := hg.managed.lived s
  rw [hh] at hl
  exact idle_before hl (by rcases he with he | he <;> rw [he] <;> exact nofun)

theorem Good.inOrder (hg : Good S w h) {s svc : ℕ} {uid : UInt32}
    (ha : .accepted s uid svc ∈ h) : InOrder (S.serviceSendsFirst svc) (history s h) := by
  have hm := hg.managed
  have hlife : ∃ l, life S.serviceSendsFirst (history s h) = some l ∧
      l.stage ≠ .answered true ∧ Flows (history s h) := by
    by_cases hused : ∃ i, w.inuse i ∧ (w.table.ctl i).s = s
    · obtain ⟨i,hi,rfl⟩ := hused
      obtain ⟨l,ho⟩ := hm.conn i hi
      refine ⟨l,ho.life,?_,ho.flows⟩
      intro hst
      have hend := hg.ending hi ho.life
      rw [hst] at hend
      cases hend
    · obtain ⟨⟨l,hl,hst,_⟩,hf⟩ := hm.retired s (hm.future _ ha)
        (fun i hi hse => hused ⟨i,hi,hse⟩)
      exact ⟨l,hl,fun he => (by rw [hst] at he; cases he),hf⟩
  obtain ⟨l,hl,hst,hf⟩ := hlife
  refine ⟨?_,hf⟩
  rw [← life_sendsFirst hl (mem_history.mpr ⟨ha,rfl⟩)]
  exact (describes_life hl).order hst

end Good

section Runs
variable {S : Services σ} {d : ℕ} {U : Usage σ} {q : σ} {w : World σ} {h : List ConnEvent}

/-- Callbacks that close nothing, with an `on_close` that does not send either. -/
theorem obeys_of_plain (hS : S.Closeless)
    (hclose : ∀ p uid, ((S.protocol p).onClose uid).Plain) : Obeys .lenient S :=
  ⟨fun _ _ _ => trivial,quietClose_of_plain (fun _ _ _ => trivial) hclose,
    fun _ _ _ _ => .inr trivial,.inl hS⟩

theorem good_of_plain (hS : S.Closeless)
    (hclose : ∀ p uid, ((S.protocol p).onClose uid).Plain) (hr : Reachable S d U q w h) :
    Good S w h :=
  ((obeys_of_plain hS hclose).serves.reachable trivial hr trivial).1

/-- In every state a server comes to, the slots agree with what is outstanding, and a socket is
closed and its slot freed at most once, with nothing outstanding. -/
theorem connections_accounted (hS : S.Closeless)
    (hclose : ∀ p uid, ((S.protocol p).onClose uid).Plain) (hr : Reachable S d U q w h) :
    Accounted w h := (good_of_plain hS hclose hr).accounted

/-- In every run the callbacks of a connection come in the order a protocol is promised, with the
first frames of its client. -/
theorem callbacks_inOrder (hS : S.Closeless)
    (hclose : ∀ p uid, ((S.protocol p).onClose uid).Plain) (hr : Reachable S d U q w h)
    {s svc : ℕ} {uid : UInt32} (ha : .accepted s uid svc ∈ h) :
    InOrder (S.serviceSendsFirst svc) (history s h) := (good_of_plain hS hclose hr).inOrder ha

end Runs

/-! ## Runs that show what the results rest on -/

theorem zero_ne_nil (_ : ℕ) : [0] ≠ ([] : List ℕ) := List.cons_ne_nil _ _

def onlyProtocol (p : Protocol Unit) : Services Unit := ⟨fun _ => p,fun _ => [0],zero_ne_nil⟩

/-- A protocol that answers the first message. -/
def answering : Protocol Unit where
  sendsFirst := false
  identify _ := true
  onAssignProtocol _ := .ret true
  onClose _ := .ret ()
  onConnect _ := .ret .ok
  onWrite _ := .ret .close
  onRecvMessage _ _ := .ret .ok
  onRecvFirstMessage _ _ := .send 0 1 (fun _ => .ret .ok)

/-- A protocol that says goodbye. -/
def departing : Protocol Unit := { answering with
  sendsFirst := true, onClose := fun _ => .send 0 1 (fun _ => .ret ()) }

/-- A message of one byte, and the answer to it. -/
def answered : List (Action Unit × List Bool) :=
  [(.accept 0,[true]),(.complete 0 ⟨0,.readLength⟩ false 2 [1,0],[true]),
    (.complete 0 ⟨0,.readBody 1⟩ false 1 [7],[true,true])]

theorem answered_plays : Plays (onlyProtocol answering) 0 .any answered (World.initial (),[]) :=
  ⟨fun _ _ _ => id,rfl,⟨by decide,.read rfl rfl⟩,rfl,⟨by decide,.read rfl rfl⟩,rfl,trivial⟩

theorem answering_closeless : (onlyProtocol answering).Closeless :=
  ⟨fun _ _ => trivial,fun _ _ => trivial,fun _ _ => trivial,fun _ _ _ => trivial,
    fun _ _ _ _ => trivial⟩

theorem connections_accounted_answered :
    Accounted ((onlyProtocol answering).play 0 answered ()).1
      ((onlyProtocol answering).play 0 answered ()).2 :=
  connections_accounted answering_closeless (fun _ _ => trivial) answered_plays.reachable

theorem departing_closeless : (onlyProtocol departing).Closeless :=
  ⟨fun _ _ => trivial,fun _ _ => trivial,fun _ _ => trivial,fun _ _ _ => trivial,
    fun _ _ _ _ => trivial⟩

/-- A client that closes at once. -/
def departed : List (Action Unit × List Bool) :=
  [(.accept 0,[true]),(.complete 0 ⟨0,.readLength⟩ false 0 [],[true])]

theorem departed_plays : Plays (onlyProtocol departing) 0 .any departed (World.initial (),[]) :=
  ⟨fun _ _ _ => id,rfl,⟨by decide,.closed⟩,rfl,trivial⟩

/-- A goodbye is still outstanding when its socket is closed. -/
theorem connections_not_accounted : ¬ ∀ (S : Services Unit) (d : ℕ) (w : World Unit)
    (h : List ConnEvent), S.Closeless → (∀ p uid, ((S.protocol p).onClose uid).Closeless) →
      Reachable S d .any () w h → Accounted w h := by
  intro hall
  have hacc := hall _ 0 _ _ departing_closeless (fun _ _ _ => trivial) departed_plays.reachable
  have hsplit : history 0 ((onlyProtocol departing).play 0 departed ()).2 =
      ((onlyProtocol departing).play 0 departed ()).2.take 9 ++
        .closesocket 0 :: [.freed 0 0] := by decide
  exact absurd (hacc.idle hsplit (.inl rfl)) (by decide)

theorem callbacks_inOrder_answered :
    InOrder false (history 0 ((onlyProtocol answering).play 0 answered ()).2) :=
  callbacks_inOrder answering_closeless (fun _ _ => trivial) answered_plays.reachable
    (show ConnEvent.accepted 0 65536 0 ∈ _ by decide)

/-- A goodbye to one client completes for the next one, which loses its slot while its read is
outstanding; what this read brings is taken for the length of a third client. -/
def mixedUp : List (Action Unit × List Bool) :=
  departed ++ [(.accept 0,[true]),(.complete 0 ⟨0,.write 0 1⟩ false 0 [],[false]),
    (.accept 0,[true]),(.complete 0 ⟨1,.readLength⟩ false 2 [2,0],[true]),
    (.complete 0 ⟨2,.readBody 2⟩ false 2 [7,7],[true])]

theorem mixedUp_plays : Plays (onlyProtocol departing) 0 .any mixedUp (World.initial (),[]) :=
  ⟨fun _ _ _ => id,rfl,⟨by decide,.closed⟩,rfl,fun _ _ _ => id,rfl,⟨by decide,.closed⟩,rfl,fun _ _ _ => id,rfl,
    ⟨by decide,.read rfl rfl⟩,rfl,⟨by decide,.read rfl rfl⟩,rfl,trivial⟩

/-- A protocol that says goodbye is handed a message its client never sent. -/
theorem callbacks_not_inOrder : ¬ ∀ (S : Services Unit) (d : ℕ) (w : World Unit)
    (h : List ConnEvent) (s svc : ℕ) (uid : UInt32), S.Closeless →
      (∀ p uid, ((S.protocol p).onClose uid).Closeless) → Reachable S d .any () w h →
        .accepted s uid svc ∈ h → InOrder (S.serviceSendsFirst svc) (history s h) := by
  intro hall
  have hin := hall _ 0 _ _ 2 0 196608 departing_closeless (fun _ _ _ => trivial)
    mixedUp_plays.reachable (by decide)
  have hbodies : bodies (history 2 ((onlyProtocol departing).play 0 mixedUp ()).2) = [[7,7]] := by
    decide
  have hbytes : received (history 2 ((onlyProtocol departing).play 0 mixedUp ()).2) = [7,7] := by
    decide
  have hframes : frames [7,7] = [] := by rw [frames]; rfl
  have hprefix := hin.flows []
  rw [hbodies, hbytes, List.append_nil, hframes] at hprefix
  cases List.prefix_nil.mp hprefix

end Kaplar.Server
