import Kaplar.Protocol.OwnershipLogin

/-! # What a login is answered with

A login gets an outbuf from the list, which is filled up first when it is empty. Its
message is written there, and with the outbuf the connection is answered, if it is still
there.
-/
namespace Kaplar.Protocol
open Kaplar.Server
variable {kind : ℕ → Kind} {hand : Hand} {p q : Shared} {F : ℕ → Option Face}
  {f f' : Face} {i a l : ℕ} {d : LoginState} {o : Outbuf}

/-! ## The list is filled up -/

/-- A new outbuf is the only idle one. -/
structure Stocked (p q : Shared) : Prop extends SameQueues p q where
  empty : p.idle = []
  idle : q.idle = [p.heap.next]
  self : ∃ o, q.heap.block p.heap.next = some (.outbuf o)
  block : ∀ x, x ≠ p.heap.next → q.heap.block x = p.heap.block x
  next : p.heap.next ≤ q.heap.next
  notes : q.record.notes = p.record.notes
  made : q.record.made = p.record.made
  resolved : q.record.resolved = p.record.resolved
  acquired : q.record.acquired = p.record.acquired
  released : q.record.released = p.record.released

theorem stocked_alloc (hidle : p.idle = []) (o : Outbuf) :
    Stocked p { p with heap := p.heap.alloc (.outbuf o), idle := [p.heap.next] } :=
  ⟨⟨rfl,rfl,rfl,rfl⟩,hidle,rfl,⟨o,Heap.block_alloc_self⟩,fun _ hx => Heap.block_alloc_of_ne hx,
    Nat.le_succ _,rfl,rfl,rfl,rfl,rfl⟩

namespace Stocked

theorem login (hs : Stocked p q) :
    q.heap.block l = some (.loginInfo d) ↔ p.heap.block l = some (.loginInfo d) := by
  by_cases hl : l = p.heap.next
  · obtain ⟨o,ho⟩ := hs.self
    rw [hl, ho]
    simp
  · rw [hs.block l hl]

theorem acquiredFor (hs : Stocked p q) (x : ℕ) : q.acquiredFor x = p.acquiredFor x := by
  rw [Shared.acquiredFor, Shared.acquiredFor, hs.acquired]

theorem aside (hs : Stocked p q) : Aside p.heap.next none p q :=
  ⟨hs.block,[],by rw [hs.notes, List.append_nil],nofun⟩

theorem live (hs : Stocked p q) (x : ℕ) : q.Live x ↔ x = p.heap.next ∨ p.Live x := by
  unfold Shared.Live
  by_cases hx : x = p.heap.next
  · subst hx
    obtain ⟨o,ho⟩ := hs.self
    simp [ho]
  · simp [hs.block x hx,hx]

theorem logins (hs : Stocked p q) (hl : Logins hand p) : Logins hand q := by
  constructor
  · rw [hs.idle]
    exact List.nodup_singleton _
  · intro x hx
    rw [hs.idle, List.mem_singleton] at hx
    rw [hx]
    exact hs.self
  · intro l hm
    rw [hs.inFlight] at hm
    obtain ⟨d,hd⟩ := hl.flight l hm
    exact ⟨d,hs.login.mpr hd⟩
  · intro l d a hh hb hd
    obtain ⟨⟨o,ho⟩,hac⟩ := hl.output l d a hh (hs.login.mp hb) hd
    exact ⟨⟨o,(hs.block a (Heap.ne_next ho)).trans ho⟩,(hs.acquiredFor a).trans hac⟩
  · intro l₁ l₂ d₁ d₂ h₁ h₂
    exact hl.distinct l₁ l₂ d₁ d₂ (hs.login.mp h₁) (hs.login.mp h₂)
  · intro l hm d hb
    rw [hs.dbTasks, hs.dbThread] at hm
    exact hl.unanswered l hm d (hs.login.mp hb)
  · intro l hm d hb
    rw [hs.dbThread] at hm
    exact hl.answered l hm d (hs.login.mp hb)
  · rw [hs.made, hs.resolved, hs.inFlight]
    exact hl.made
  · rw [hs.made]
    exact hl.madeOnce
  · intro l hm
    rw [hs.made] at hm
    exact (hl.older l hm).trans_le hs.next
  · intro x
    have hsame : (q.outbufAt x).isSome = (p.outbufAt x).isSome := by
      rw [Bool.eq_iff_iff, outbufAt_isSome, outbufAt_isSome, hs.idle, hs.empty]
      by_cases hx : x = p.heap.next
      · subst hx
        simp
      · simp [hx,hs.block x hx]
    rw [hsame, hs.acquired, hs.released]
    exact hl.acquired x

theorem holds (hs : Stocked p q) (he : Exclusive p.Live (Holds hand p F)) {k : Holder} {x : ℕ} :
    Holds hand q F k x ↔
      x = p.heap.next ∧ k = .pool ∨ x ≠ p.heap.next ∧ Holds hand p F k x := by
  have hne (hk : Holds hand p F k x) : x ≠ p.heap.next := Owned.live_ne_next (he.live hk)
  cases k with
  | pool =>
    simp only [Holds, hs.idle, hs.empty, List.mem_singleton, List.not_mem_nil, and_false, or_false,
      and_true]
  | flight =>
    simp only [Holds, hs.inFlight, reduceCtorEq, and_false, false_or]
    exact ⟨fun hk => ⟨hne hk,hk⟩,And.right⟩
  | login l =>
    simp only [Holds, hs.login, reduceCtorEq, and_false, false_or]
    exact ⟨fun hk => ⟨hne hk,hk⟩,And.right⟩
  | conn uid =>
    simp only [reduceCtorEq, and_false, false_or]
    exact ⟨fun hk => ⟨hne hk,hk⟩,And.right⟩

end Stocked

/-- With no idle outbuf a new one is allocated. -/
theorem Owned.stock (ho : Owned kind hand p F) (hs : Stocked p q) : Owned kind hand q F :=
  ho.around hs.aside ho.next_ne_greeting hs.misused (fun _ _ hg => ho.ptr_ne_next hg)
    (hs.logins ho.logins) (ho.exclusive.give hs.live (fun _ _ => hs.holds ho.exclusive))
    (fun l d j g hh hb hg hu => ho.awaited l d j g hh (hs.login.mp hb) hg hu)
    (fun _ _ a _ _ => hs.acquiredFor a)

/-! ## An outbuf is acquired -/

/-- A login has got the first idle outbuf. -/
structure Acquired (l a : ℕ) (d : LoginState) (p q : Shared) : Prop extends SameQueues p q where
  login : p.heap.block l = some (.loginInfo d)
  output : d.output = none
  self : q.heap.block l = some (.loginInfo { d with output := some a })
  block : ∀ x, x ≠ l → q.heap.block x = p.heap.block x
  idle : p.idle = a :: q.idle
  next : q.heap.next = p.heap.next
  notes : q.record.notes = p.record.notes
  made : q.record.made = p.record.made
  resolved : q.record.resolved = p.record.resolved
  acquired : q.record.acquired = (a,d.connection) :: p.record.acquired
  released : q.record.released = p.record.released

theorem acquired_acquireOutput (hat : p.loginAt l = some d) (hd : d.output = none) {rest : List ℕ}
    (hidle : p.idle = a :: rest) : Acquired l a d p (p.acquireOutput l) := by
  have hb := (heap_of_block (loginAt_eq.mp hat)).2
  rw [Shared.acquireOutput, hat]
  simp only [Shared.outbufAcquire, hidle]
  exact ⟨⟨rfl,rfl,rfl,rfl⟩,hb,hd,Heap.block_modify_self hb,fun x hx => Heap.block_modify_of_ne hx,hidle,
    rfl,rfl,rfl,rfl,rfl,rfl⟩

namespace Acquired
variable {e : LoginState} {x : ℕ}

/-- Every other login is the same. -/
theorem cases (ha : Acquired l a d p q) (he : q.heap.block x = some (.loginInfo e)) :
    x = l ∧ e = { d with output := some a } ∨ x ≠ l ∧ p.heap.block x = some (.loginInfo e) := by
  by_cases hx : x = l
  · subst hx
    rw [ha.self] at he
    cases he
    exact .inl ⟨rfl,rfl⟩
  · exact .inr ⟨hx,(ha.block x hx).symm.trans he⟩

/-- Every login is for the same connection. -/
theorem before (ha : Acquired l a d p q) (he : q.heap.block x = some (.loginInfo e)) :
    ∃ e', p.heap.block x = some (.loginInfo e') ∧ e'.connection = e.connection := by
  rcases ha.cases he with ⟨rfl,rfl⟩ | ⟨-,he⟩
  · exact ⟨d,ha.login,rfl⟩
  · exact ⟨e,he,rfl⟩

theorem outbuf (ha : Acquired l a d p q) :
    (∃ o, q.heap.block x = some (.outbuf o)) ↔ ∃ o, p.heap.block x = some (.outbuf o) := by
  by_cases hx : x = l
  · subst hx
    simp [ha.self,ha.login]
  · rw [ha.block x hx]

theorem acquiredFor_self (ha : Acquired l a d p q) : q.acquiredFor a = some d.connection := by
  rw [Shared.acquiredFor, ha.acquired]
  simp

theorem acquiredFor (ha : Acquired l a d p q) (hx : x ≠ a) : q.acquiredFor x = p.acquiredFor x := by
  rw [Shared.acquiredFor, Shared.acquiredFor, ha.acquired, List.find?_cons_of_neg]
  simp [Ne.symm hx]

theorem aside (ha : Acquired l a d p q) : Aside l none p q :=
  ⟨ha.block,[],by rw [ha.notes, List.append_nil],nofun⟩

theorem mem (ha : Acquired l a d p q) : a ∈ p.idle := ha.idle ▸ List.mem_cons_self

/-- Whatever somebody holds is not in the list. -/
theorem ne_of_holds (ha : Acquired l a d p q) (he : Exclusive p.Live (Holds hand p F)) {k : Holder}
    (hk : Holds hand p F k x) (hp : k ≠ .pool) : x ≠ a := by
  have hpool : Holds hand p F .pool a := ha.mem
  exact he.ne hk hpool hp

theorem live (ha : Acquired l a d p q) (hl : Logins hand p) (x : ℕ) :
    q.Live x ↔ x = a ∨ p.Live x := by
  have hsame : q.Live x ↔ p.Live x := by
    unfold Shared.Live
    by_cases hx : x = l
    · subst hx
      simp [ha.self,ha.login]
    · rw [ha.block x hx]
  obtain ⟨o,ho⟩ := hl.idle a ha.mem
  rw [hsame]
  refine ⟨.inr,?_⟩
  rintro (rfl | hx)
  · exact live_of_block ho (by simp)
  · exact hx

theorem count (ha : Acquired l a d p q) (hl : Logins hand p) (x : ℕ) :
    (q.record.acquired.map Prod.fst).count x =
      q.record.released.count x + if (q.outbufAt x).isSome then 1 else 0 := by
  obtain ⟨hrest,-⟩ := List.nodup_cons.mp (ha.idle ▸ hl.idleOnce)
  have hcount := hl.acquired x
  rw [ha.acquired, ha.released, List.map_cons]
  by_cases hx : x = a
  · subst hx
    have hyes : (q.outbufAt x).isSome = true := by
      rw [outbufAt_isSome, ha.outbuf]
      exact ⟨hrest,hl.idle x ha.mem⟩
    have hno : (p.outbufAt x).isSome = false := by
      rw [← Bool.not_eq_true, outbufAt_isSome]
      exact fun h => h.1 ha.mem
    rw [hno] at hcount
    rw [hyes, List.count_cons_self, hcount]
    rfl
  · have hsame : (q.outbufAt x).isSome = (p.outbufAt x).isSome :=
      outbufAt_congr (by simp [ha.idle,hx]) ha.outbuf
    rw [hsame, List.count_cons_of_ne (Ne.symm hx)]
    exact hcount

theorem logins (ha : Acquired l a d p q) (hl : Logins (.login l) p)
    (hne : ∀ m e x, p.heap.block m = some (.loginInfo e) → e.output = some x → x ≠ a) :
    Logins (.login l) q := by
  have hn {m : ℕ} : Hand.login l ≠ .answered m := Hand.noConfusion
  have hfree : l ∉ p.inFlight := (List.nodup_cons.mp (inFlight_nodup hl)).1
  constructor
  · exact (List.nodup_cons.mp (ha.idle ▸ hl.idleOnce)).2
  · exact fun x hx => ha.outbuf.mpr (hl.idle x (ha.idle ▸ List.mem_cons_of_mem _ hx))
  · intro m hm
    rw [ha.inFlight] at hm
    by_cases hx : m = l
    · exact ⟨_,hx ▸ ha.self⟩
    · rw [ha.block m hx]
      exact hl.flight m hm
  · intro m e x _ he hx
    rcases ha.cases he with ⟨rfl,rfl⟩ | ⟨-,he⟩
    · cases hx
      exact ⟨ha.outbuf.mpr (hl.idle a ha.mem),ha.acquiredFor_self⟩
    · obtain ⟨ho,hac⟩ := hl.output m e x hn he hx
      exact ⟨ha.outbuf.mpr ho,(ha.acquiredFor (hne m e x he hx)).trans hac⟩
  · intro l₁ l₂ d₁ d₂ h₁ h₂ hc
    obtain ⟨e₁,h₁,hc₁⟩ := ha.before h₁
    obtain ⟨e₂,h₂,hc₂⟩ := ha.before h₂
    exact hl.distinct l₁ l₂ e₁ e₂ h₁ h₂ (by rw [hc₁, hc₂, hc])
  · intro m hm e he
    rw [ha.dbTasks, ha.dbThread] at hm
    rcases ha.cases he with ⟨rfl,-⟩ | ⟨-,he⟩
    · refine absurd ?_ hfree
      rcases hm with hm | hm <;> simp [Shared.inFlight,hm,DbThread.logins]
    · exact hl.unanswered m hm e he
  · intro m hm e he
    rw [ha.dbThread] at hm
    rcases ha.cases he with ⟨rfl,-⟩ | ⟨-,he⟩
    · refine absurd ?_ hfree
      simp [Shared.inFlight,hm,DbThread.logins]
    · exact hl.answered m hm e he
  · rw [ha.made, ha.resolved, ha.inFlight]
    exact hl.made
  · rw [ha.made]
    exact hl.madeOnce
  · intro m hm
    rw [ha.made] at hm
    rw [ha.next]
    exact hl.older m hm
  · exact ha.count hl

theorem holds (ha : Acquired l a d p q) (ho : Owned kind (.login l) p F) {k : Holder} :
    Holds (.login l) q F k x ↔ x = a ∧ k = .login l ∨ x ≠ a ∧ Holds (.login l) p F k x := by
  have hn {m : ℕ} : Hand.login l ≠ .answered m := Hand.noConfusion
  have hne (hk : Holds (.login l) p F k x) (hp : k ≠ .pool) : x ≠ a :=
    ha.ne_of_holds ho.exclusive hk hp
  cases k with
  | pool =>
    obtain ⟨hrest,-⟩ := List.nodup_cons.mp (ha.idle ▸ ho.logins.idleOnce)
    simp only [Holds, ha.idle, reduceCtorEq, and_false, false_or, List.mem_cons]
    exact ⟨fun hm => ⟨fun hx => hrest (hx ▸ hm),.inr hm⟩,fun hm => hm.2.resolve_left hm.1⟩
  | flight =>
    simp only [Holds, ha.inFlight, reduceCtorEq, and_false, false_or]
    exact ⟨fun hk => ⟨hne hk Holder.noConfusion,hk⟩,And.right⟩
  | login m =>
    constructor
    · rintro ⟨-,e,he,hx⟩
      rcases ha.cases he with ⟨rfl,rfl⟩ | ⟨-,he⟩
      · exact .inl ⟨(Option.some.inj hx).symm,rfl⟩
      · exact .inr ⟨hne ⟨hn,e,he,hx⟩ Holder.noConfusion,hn,e,he,hx⟩
    · rintro (⟨rfl,⟨⟩⟩ | ⟨-,-,e,he,hx⟩)
      · exact ⟨hn,_,ha.self,rfl⟩
      · refine ⟨hn,e,(ha.block m ?_).trans he,hx⟩
        rintro rfl
        rw [ha.login] at he
        cases he
        rw [ha.output] at hx
        cases hx
  | conn uid =>
    simp only [reduceCtorEq, and_false, false_or]
    exact ⟨fun hk => ⟨hne hk Holder.noConfusion,hk⟩,And.right⟩

end Acquired

namespace Owned

/-- The first idle outbuf goes to the login at hand. -/
theorem take (ho : Owned kind (.login l) p F) (ha : Acquired l a d p q) :
    Owned kind (.login l) q F := by
  have hn {m : ℕ} : Hand.login l ≠ .answered m := Hand.noConfusion
  refine ho.around ha.aside ((live_of_block ha.login (by simp)).ne_greeting ho.greeting) ha.misused
    (ho.ptr_ne_login ha.login) (ha.logins ho.logins ?_)
    (ho.exclusive.give (ha.live ho.logins) (fun _ _ => ha.holds ho)) ?_ ?_
  · intro m e x he hx
    have hk : Holds (.login l) p F (.login m) x := ⟨hn,e,he,hx⟩
    exact ha.ne_of_holds ho.exclusive hk Holder.noConfusion
  · intro m e j g _ he hg hu
    obtain ⟨e',he',hc⟩ := ha.before he
    exact ho.awaited m e' j g hn he' hg (hu.trans hc.symm)
  · intro j g x hg hx
    have hk : Holds (.login l) p F (.conn g.uid) x := ⟨j,g,hg,rfl,hx⟩
    exact ha.acquiredFor (ha.ne_of_holds ho.exclusive hk Holder.noConfusion)

/-- The login at hand gets an output buffer. -/
theorem acquireOutput (ho : Owned kind (.login l) p F)
    (hb : p.heap.block l = some (.loginInfo d)) (hd : d.output = none) :
    Owned kind (.login l) (p.acquireOutput l) F := by
  cases hidle : p.idle with
  | cons a rest => exact ho.take (acquired_acquireOutput (ho.loginAt hb) hd hidle)
  | nil =>
    have hs := stocked_alloc hidle ⟨0,fun _ => 0⟩
    have ho' := ho.stock hs
    have hat := ho'.loginAt (hs.login.mpr hb)
    have htake := ho'.take (acquired_acquireOutput hat hd rfl)
    have heq : p.acquireOutput l = Shared.acquireOutput
        { p with heap := p.heap.alloc (.outbuf ⟨0,fun _ => 0⟩), idle := [p.heap.next] } l := by
      rw [Shared.acquireOutput, Shared.acquireOutput, ho.loginAt hb, hat]
      simp only [Shared.outbufAcquire, hidle]
    rw [heq]
    exact htake

theorem acquired_output (ho : Owned kind (.login l) p F)
    (hb : p.heap.block l = some (.loginInfo d)) : ∃ a, (p.acquireOutput l).heap.block l =
      some (.loginInfo { d with output := some a }) := by
  refine ⟨(p.outbufAcquire d.connection).1,?_⟩
  rw [Shared.acquireOutput, ho.loginAt hb]
  have hb' : (p.outbufAcquire d.connection).2.heap.block l = some (.loginInfo d) := by
    unfold Shared.outbufAcquire
    split
    · exact hb
    · exact (Heap.block_alloc_of_ne (Heap.ne_next hb)).trans hb
  exact (block_setBlock hb').trans (if_pos rfl)

/-! ## A message is written -/

theorem outputOf (ho : Owned kind hand p F) (hh : hand ≠ .answered l)
    (hb : p.heap.block l = some (.loginInfo d)) (hd : d.output = some a) :
    ∃ o, p.outputOf l = some (d,a,o) ∧ p.heap.block a = some (.outbuf o) := by
  obtain ⟨o,hat,hout⟩ := ho.output hh hb hd
  refine ⟨o,?_,hout⟩
  simp [Shared.outputOf,ho.loginAt hb,hd,hat]

/-- Only the output buffer of the login changes. -/
theorem writeOutput (ho : Owned kind hand p F) (hh : hand ≠ .answered l)
    (hb : p.heap.block l = some (.loginInfo d)) (hd : d.output = some a) {ptrSize : ℕ}
    {build : LoginState → MemM Unit ℕ} (hw : p.writeOutput ptrSize l build = some q) :
    Owned kind hand q F ∧ SameLogins p q := by
  obtain ⟨o,hof,hout⟩ := ho.outputOf hh hb hd
  rw [Shared.writeOutput, hof] at hw
  dsimp only at hw
  split at hw
  · cases hw
  · rename_i ptr m _
    cases hw
    let p₁ := (p.setBlock a (.outbuf ⟨ptr,m.bytes ()⟩)).note (.touched a)
    have hs : SameLogins p p₁ :=
      (SameLogins.setBlock hout (by simp) (by simp) (by simp)).trans (.note _)
    have hlive (x : ℕ) : p₁.Live x ↔ p.Live x := live_setBlock hout (by simp) (by simp) x
    have hne := ho.conn_ne_output hh hb hd
    refine ⟨ho.around (Aside.setBlock.note (.inl rfl))
      ((live_of_block hout (by simp)).ne_greeting ho.greeting) rfl hne (ho.logins.carry hs)
      (ho.exclusive.congr hlive ?_) ?_ (fun _ _ x _ _ => hs.acquiredFor x),hs⟩
    · intro k x
      cases k with
      | conn uid => exact Iff.rfl
      | _ => exact hs.holds (fun _ => Holder.noConfusion)
    · exact fun l' d' j g hn hb' hg hu => ho.awaited l' d' j g hn ((hs.logins l' d').mp hb') hg hu

end Owned

/-! ## A login is added -/

/-- A `login_info` has been allocated. -/
structure Added (d : LoginState) (p q : Shared) : Prop extends SameQueues p q where
  output : d.output = none
  self : q.heap.block p.heap.next = some (.loginInfo d)
  block : ∀ x, x ≠ p.heap.next → q.heap.block x = p.heap.block x
  idle : q.idle = p.idle
  next : p.heap.next < q.heap.next
  notes : q.record.notes = p.record.notes
  made : q.record.made = p.heap.next :: p.record.made
  resolved : q.record.resolved = p.record.resolved
  acquired : q.record.acquired = p.record.acquired
  released : q.record.released = p.record.released

theorem added_addLogin (login : LoginInfo) (m : Memory Region) :
    Added ⟨login,none,stringIn m .accname,stringIn m .password⟩ p (p.addLogin login m) :=
  ⟨⟨rfl,rfl,rfl,rfl⟩,rfl,Heap.block_alloc_self,fun _ hx => Heap.block_alloc_of_ne hx,rfl,
    Nat.lt_succ_self _,rfl,rfl,rfl,rfl,rfl⟩

namespace Added
variable {e : LoginState} {x : ℕ}

theorem cases (ha : Added d p q) (he : q.heap.block x = some (.loginInfo e)) :
    x = p.heap.next ∧ e = d ∨ p.heap.block x = some (.loginInfo e) := by
  by_cases hx : x = p.heap.next
  · subst hx
    rw [ha.self] at he
    cases he
    exact .inl ⟨rfl,rfl⟩
  · exact .inr ((ha.block x hx).symm.trans he)

theorem outbuf (ha : Added d p q) :
    (∃ o, q.heap.block x = some (.outbuf o)) ↔ ∃ o, p.heap.block x = some (.outbuf o) := by
  by_cases hx : x = p.heap.next
  · subst hx
    simp [ha.self]
  · rw [ha.block x hx]

theorem acquiredFor (ha : Added d p q) (x : ℕ) : q.acquiredFor x = p.acquiredFor x := by
  rw [Shared.acquiredFor, Shared.acquiredFor, ha.acquired]

theorem aside (ha : Added d p q) : Aside p.heap.next none p q :=
  ⟨ha.block,[],by rw [ha.notes, List.append_nil],nofun⟩

theorem live (ha : Added d p q) (x : ℕ) : q.Live x ↔ x = p.heap.next ∨ p.Live x := by
  unfold Shared.Live
  by_cases hx : x = p.heap.next
  · subst hx
    simp [ha.self]
  · simp [ha.block x hx,hx]

theorem logins (ha : Added d p q) (hl : Logins .empty p)
    (hno : ∀ l e, p.heap.block l = some (.loginInfo e) → e.connection ≠ d.connection) :
    Logins (.login p.heap.next) q := by
  have hnew {l : ℕ} (hm : l ∈ p.inFlight) : l ≠ p.heap.next := by
    obtain ⟨e,he⟩ := hl.flight l hm
    exact Heap.ne_next he
  constructor
  · rw [ha.idle]
    exact hl.idleOnce
  · intro x hx
    rw [ha.idle] at hx
    exact ha.outbuf.mpr (hl.idle x hx)
  · intro l hm
    rw [ha.inFlight] at hm
    rcases List.mem_cons.mp hm with rfl | hm
    · exact ⟨d,ha.self⟩
    · rw [ha.block l (hnew hm)]
      exact hl.flight l hm
  · intro l e x _ he hx
    rcases ha.cases he with ⟨-,rfl⟩ | he
    · rw [ha.output] at hx
      cases hx
    · obtain ⟨ho,hac⟩ := hl.output l e x nofun he hx
      exact ⟨ha.outbuf.mpr ho,(ha.acquiredFor x).trans hac⟩
  · intro l₁ l₂ e₁ e₂ h₁ h₂ he
    rcases ha.cases h₁ with ⟨rfl,rfl⟩ | h₁ <;> rcases ha.cases h₂ with ⟨rfl,rfl⟩ | h₂
    · rfl
    · exact absurd he.symm (hno l₂ e₂ h₂)
    · exact absurd he (hno l₁ e₁ h₁)
    · exact hl.distinct l₁ l₂ e₁ e₂ h₁ h₂ he
  · intro l hm e he
    rcases ha.cases he with ⟨-,rfl⟩ | he
    · exact ha.output
    · rw [ha.dbTasks, ha.dbThread] at hm
      exact hl.unanswered l hm e he
  · intro l hm e he
    rw [ha.dbThread] at hm
    rcases ha.cases he with ⟨rfl,-⟩ | he
    · refine absurd rfl (hnew (l := p.heap.next) ?_)
      simp [Shared.inFlight,hm,DbThread.logins]
    · exact hl.answered l hm e he
  · rw [ha.made, ha.resolved, ha.inFlight]
    exact (hl.made.cons _).trans List.perm_middle.symm
  · rw [ha.made]
    exact List.nodup_cons.mpr ⟨fun hm => Nat.lt_irrefl _ (hl.older _ hm),hl.madeOnce⟩
  · intro l hm
    rw [ha.made] at hm
    rcases List.mem_cons.mp hm with rfl | hm
    · exact ha.next
    · exact (hl.older l hm).trans ha.next
  · intro x
    rw [outbufAt_congr (by rw [ha.idle]) ha.outbuf, ha.acquired, ha.released]
    exact hl.acquired x

theorem holds (ha : Added d p q) (he : Exclusive p.Live (Holds .empty p F)) {k : Holder} :
    Holds (.login p.heap.next) q F k x ↔
      x = p.heap.next ∧ k = .flight ∨ x ≠ p.heap.next ∧ Holds .empty p F k x := by
  have hne {k : Holder} (hk : Holds .empty p F k x) : x ≠ p.heap.next :=
    Owned.live_ne_next (he.live hk)
  cases k with
  | pool =>
    simp only [Holds, ha.idle, reduceCtorEq, and_false, false_or]
    exact ⟨fun hk => ⟨hne (k := .pool) hk,hk⟩,And.right⟩
  | flight =>
    change x ∈ p.heap.next :: q.inFlight ↔ x = p.heap.next ∧ _ ∨ _ ∧ x ∈ p.inFlight
    rw [ha.inFlight, List.mem_cons]
    by_cases hx : x = p.heap.next <;> simp [hx]
  | login l =>
    simp only [reduceCtorEq, and_false, false_or]
    constructor
    · rintro ⟨-,e,he',hx⟩
      rcases ha.cases he' with ⟨-,rfl⟩ | he'
      · rw [ha.output] at hx
        cases hx
      · have hold : Holds .empty p F (.login l) x := ⟨nofun,e,he',hx⟩
        exact ⟨hne hold,hold⟩
    · rintro ⟨-,-,e,he',hx⟩
      exact ⟨nofun,e,(ha.block l (Heap.ne_next he')).trans he',hx⟩
  | conn uid =>
    simp only [reduceCtorEq, and_false, false_or]
    exact ⟨fun hk => ⟨hne (k := .conn uid) hk,hk⟩,And.right⟩

end Added

namespace Owned

/-- A connection that has no login yet gets one. -/
theorem addLogin (ho : Owned kind .empty p F) (hslot : Slotted F) (hi : F i = some f)
    (hawait : Awaits kind f) (ha : Added d p q) (hc : d.connection = f.uid)
    (hno : ∀ l e, p.heap.block l = some (.loginInfo e) → e.connection ≠ d.connection) :
    Owned kind (.login p.heap.next) q F := by
  refine ho.around ha.aside ho.next_ne_greeting ha.misused (fun _ _ hg => ho.ptr_ne_next hg)
    (ha.logins ho.logins hno) (ho.exclusive.give ha.live (fun _ _ => ha.holds ho.exclusive)) ?_
    (fun _ _ a _ _ => ha.acquiredFor a)
  intro l e j g _ he hg hu
  rcases ha.cases he with ⟨-,rfl⟩ | he
  · have hj : j = i := by
      by_contra hj
      exact uid_ne hslot hi hg hj (hu.trans hc)
    rw [hj, hi] at hg
    cases hg
    exact hawait
  · exact ho.awaited l e j g nofun he hg hu

/-! ## The connection is answered -/

/-- A connection whose login is not resolved has nothing to send. -/
theorem awaits_idle (ho : Owned kind hand p F) (hi : F i = some f) (ha : Awaits kind f) :
    f.busy = false := by
  obtain ⟨hk,-,hnull⟩ := ha
  have hf := ho.face i f hi
  rw [FaceOk, hk] at hf
  cases hbusy : f.busy with
  | false => rfl
  | true =>
    rw [(hf.2.2 hbusy).1] at hnull
    cases hnull

/-- The outbuf goes from the login at hand to its connection. -/
theorem answer (ho : Owned kind (.login l) p F) (hi : F i = some f)
    (hb : p.heap.block l = some (.loginInfo d)) (hd : d.output = some a)
    (hu : f.uid = d.connection) :
    Owned kind (.answered l) p (Function.update F i (some { f with udata := .ptr a })) := by
  have hl := ho.logins
  have hn {l' : ℕ} : Hand.login l ≠ .answered l' := Hand.noConfusion
  obtain ⟨hk,hfirst,hnull⟩ := ho.awaited l d i f hn hb hi hu
  obtain ⟨⟨o,hout⟩,hac⟩ := hl.output l d a hn hb hd
  have hmine : Holds (.login l) p F (.login l) a := ⟨hn,d,hb,hd⟩
  have hne := ho.conn_ne_output hn hb hd
  have hidle := ho.awaits_idle hi ⟨hk,hfirst,hnull⟩
  have hother {j : ℕ} {g : Face} (hg : Function.update F i (some { f with udata := .ptr a }) j =
      some g) : j = i ∧ g = { f with udata := .ptr a } ∨ j ≠ i ∧ F j = some g := by
    by_cases hj : j = i
    · subst hj
      rw [Function.update_self] at hg
      exact .inl ⟨rfl,(Option.some.inj hg).symm⟩
    · rw [Function.update_of_ne hj] at hg
      exact .inr ⟨hj,hg⟩
  refine ⟨ho.sane,ho.greeting,ho.exclusive.give (a := a) (m := .conn f.uid) ?_ ?_,
    { hl with output := fun l d a _ hb => hl.output l d a hn hb },?_,?_,?_⟩
  · refine fun x => ⟨.inr,?_⟩
    rintro (rfl | hx)
    · exact live_of_block hout (by simp)
    · exact hx
  · intro k x
    have hmoved {m : Holder} (hm : Holds (.login l) p F m x) (hml : m ≠ .login l) : x ≠ a :=
      ho.exclusive.ne hm hmine hml
    cases k with
    | conn uid =>
      refine holds_setPtr hi (fun b hb' => ?_) rfl rfl (fun hold => hmoved hold Holder.noConfusion)
      rw [hnull] at hb'
      cases hb'
    | login l' =>
      simp only [reduceCtorEq, and_false, false_or]
      constructor
      · rintro ⟨hh,e,he,hx⟩
        have hold : Holds (.login l) p F (.login l') x := ⟨hn,e,he,hx⟩
        refine ⟨hmoved hold (fun hl' => hh ?_),hold⟩
        cases hl'
        rfl
      · rintro ⟨hxa,-,e,he,hx⟩
        refine ⟨?_,e,he,hx⟩
        rintro ⟨⟩
        rw [hb] at he
        cases he
        rw [hd] at hx
        exact hxa (Option.some.inj hx).symm
    | pool =>
      simp only [reduceCtorEq, and_false, false_or]
      exact ⟨fun hold => ⟨hmoved (m := .pool) hold Holder.noConfusion,hold⟩,And.right⟩
    | flight =>
      simp only [reduceCtorEq, and_false, false_or]
      exact ⟨fun hold => ⟨hmoved (m := .flight) hold Holder.noConfusion,hold⟩,And.right⟩
  · intro j g hg
    rcases hother hg with ⟨rfl,rfl⟩ | ⟨-,hg⟩
    · rw [FaceOk, hk]
      refine ⟨.inr ⟨a,o,rfl,hout⟩,fun hf => ?_,fun hbusy => ?_⟩
      · rw [show f.firstMsg = false from hf] at hfirst
        cases hfirst
      · rw [show f.busy = true from hbusy] at hidle
        cases hidle
    · exact ho.face j g hg
  · intro l' d' j g hh he hg hu'
    rcases hother hg with ⟨rfl,rfl⟩ | ⟨-,hg⟩
    · have hl' := hl.distinct l l' d d' hb he (hu.symm.trans hu')
      exact absurd (congrArg _ hl') hh
    · exact ho.awaited l' d' j g hn he hg hu'
  · intro j g x b hg hx hbx
    rcases hother hg with ⟨rfl,rfl⟩ | ⟨-,hg⟩
    · cases hx
      rw [hac]
      exact congrArg some hu.symm
    · exact ho.acquiredFor j g x b hg hx hbx

/-- A login connection that has its outbuf sends from it, or stops sending. -/
theorem changeLogin (ho : Owned kind hand p F) (hslot : Slotted F) (hi : F i = some f)
    (hk : f.proto.map kind = some .login) (hd : f.udata = .ptr a) (hs : SameLogins p q)
    {u : Option UInt32} (ha : Aside p.heap.next u p q) (hu : ∀ uid, u = some uid → uid = f.uid)
    (hheap : q.heap = p.heap)
    (hf : f'.uid = f.uid ∧ f'.proto = f.proto ∧ f'.udata = f.udata ∧ f'.firstMsg = f.firstMsg)
    (hbusy : f'.busy = true → f'.outputData = a ∧ Steady q f') :
    Owned kind hand q (Function.update F i (some f')) := by
  obtain ⟨huid,hproto,hudata,hfirst⟩ := hf
  have hface := ho.face i f hi
  rw [FaceOk, hk] at hface
  refine ho.changeSend hslot hi ?_ hs ha hu hheap huid hudata ?_
  · rintro ⟨-,-,hnull⟩
    rw [hd] at hnull
    cases hnull
  · rw [FaceOk, hproto, hk]
    refine ⟨?_,?_,fun hb => ?_⟩
    · rw [hudata, hheap]
      exact hface.1
    · rw [hudata, hfirst]
      exact hface.2.1
    · obtain ⟨hdata,hst⟩ := hbusy hb
      rw [hdata, hudata]
      exact ⟨hd,hst⟩

end Owned

end Kaplar.Protocol
