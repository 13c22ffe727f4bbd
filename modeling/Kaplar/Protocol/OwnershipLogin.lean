import Kaplar.Protocol.OwnershipEcho

/-! # The way of a login

A `login_info` with its output buffer goes from the callback that makes it, or from the
database thread and the queues, into the hands of the code that resolves it. On the way it
gets an outbuf, which ends up with the connection or back in the list.
-/
namespace Kaplar.Protocol
open Kaplar.Server
variable {kind : ℕ → Kind} {hand hand' : Hand} {p p' : Shared} {F : ℕ → Option Face}
  {f : Face} {i a l x : ℕ} {d : LoginState} {b : Outbuf} {k : Holder}

theorem inFlight_nodup (hl : Logins hand p) : (hand.logins ++ p.inFlight).Nodup :=
  (List.nodup_append.mp (hl.made.nodup_iff.mp hl.madeOnce)).2.1

namespace Owned

/-- A change of one block that no connection has, and of the logins. -/
theorem around (ho : Owned kind hand p F) (ha : Aside x none p p') (hx : x ≠ greetingAt)
    (hm : p'.record.misused = p.record.misused)
    (hptr : ∀ j g, F j = some g → ∀ a, g.udata = .ptr a → a ≠ x)
    (hl : Logins hand' p') (hex : Exclusive p'.Live (Holds hand' p' F))
    (hawait : ∀ l d i f, hand' ≠ .answered l → p'.heap.block l = some (.loginInfo d) →
      F i = some f → f.uid = d.connection → Awaits kind f)
    (hfor : ∀ i f a, F i = some f → f.udata = .ptr a → p'.acquiredFor a = p.acquiredFor a) :
    Owned kind hand' p' F := by
  refine ⟨hm.trans ho.sane,(ha.heap _ hx.symm).trans ho.greeting,hex,hl,?_,hawait,?_⟩
  · exact fun j g hg => (ho.face j g hg).aside ha (hptr j g hg) hx nofun
  · intro j g c o hg hd hb
    rw [hfor j g c hg hd]
    rw [ha.heap c (hptr j g hg c hd)] at hb
    exact ho.acquiredFor j g c o hg hd hb

/-! ## Where the logins are -/

theorem login_not_idle (ho : Owned kind hand p F) (hb : p.heap.block l = some (.loginInfo d)) :
    l ∉ p.idle := by
  intro hm
  obtain ⟨o,ho'⟩ := ho.logins.idle l hm
  rw [hb] at ho'
  cases ho'

theorem loginAt (ho : Owned kind hand p F) (hb : p.heap.block l = some (.loginInfo d)) :
    p.loginAt l = some d := loginAt_eq.mpr (block_of_heap (ho.login_not_idle hb) hb)

/-- Connections have no logins. -/
theorem ptr_ne_login (ho : Owned kind hand p F) (hb : p.heap.block l = some (.loginInfo d)) :
    ∀ j g, F j = some g → ∀ a, g.udata = .ptr a → a ≠ l := by
  rintro j g hg a hd rfl
  have hf := ho.face j g hg
  unfold FaceOk at hf
  cases hk : g.proto.map kind with
  | none =>
    rw [hk] at hf
    exact hf.1 a hd
  | some k =>
    rw [hk] at hf
    cases k with
    | echo =>
      obtain ⟨c,h,hc,hbc,-⟩ := hf
      rw [hd] at hc
      cases hc
      rw [hb] at hbc
      cases hbc
    | login =>
      obtain ⟨hnull | ⟨c,o,hc,hbc⟩,-⟩ := hf
      · rw [hd] at hnull
        cases hnull
      · rw [hd] at hc
        cases hc
        rw [hb] at hbc
        cases hbc
    | game =>
      have hnull := hf.1
      rw [hd] at hnull
      cases hnull

theorem login_flight (ho : Owned kind hand p F) (hb : p.heap.block l = some (.loginInfo d)) :
    l ∈ hand.logins ++ p.inFlight := by
  obtain ⟨k,hk⟩ := ho.exclusive.held (live_of_block hb (by simp))
  cases k with
  | pool => exact absurd hk (ho.login_not_idle hb)
  | flight => exact hk
  | login l' =>
    obtain ⟨hh,d',hb',ho'⟩ := hk
    obtain ⟨⟨o,hbo⟩,-⟩ := ho.logins.output l' d' l hh hb' ho'
    rw [hb] at hbo
    cases hbo
  | conn uid =>
    obtain ⟨j,g,hg,-,hd⟩ := hk
    exact absurd rfl (ho.ptr_ne_login hb j g hg l hd)

/-- The tasks and the database thread hand a login on. -/
theorem requeue (ho : Owned kind hand p F) {tasks server : List ℕ} {thread : DbThread}
    (hp : p' = { p with dbTasks := tasks, dbThread := thread, serverTasks := server })
    (hperm : (hand'.logins ++ p'.inFlight).Perm (hand.logins ++ p.inFlight))
    (hh : ∀ l, hand' = .answered l ↔ hand = .answered l)
    (hun : ∀ l, l ∈ tasks ∨ thread = .resolving l → ∀ d,
      p.heap.block l = some (.loginInfo d) → d.output = none)
    (han : ∀ l, thread = .writing l → ∀ d, p.heap.block l = some (.loginInfo d) →
      d.output ≠ none) : Owned kind hand' p' F := by
  subst hp
  have hno (l : ℕ) : hand' ≠ .answered l ↔ hand ≠ .answered l := not_congr (hh l)
  have hl := ho.logins
  have ha : Aside p.heap.next none p
      { p with dbTasks := tasks, dbThread := thread, serverTasks := server } :=
    ⟨fun _ _ => rfl,[],(List.append_nil _).symm,nofun⟩
  refine ho.around ha ho.next_ne_greeting rfl (fun j g hg => ho.ptr_ne_next hg) ?_ ?_ ?_
    (fun _ _ _ _ _ => rfl)
  · exact {
      idleOnce := hl.idleOnce
      idle := hl.idle
      flight := fun l hm => hl.flight l (hperm.mem_iff.mp hm)
      output := fun l d a hn hb => hl.output l d a ((hno l).mp hn) hb
      distinct := hl.distinct
      unanswered := hun
      answered := han
      made := hl.made.trans (hperm.symm.append_left _)
      madeOnce := hl.madeOnce
      older := hl.older
      acquired := hl.acquired }
  · refine ho.exclusive.congr (fun _ => Iff.rfl) (fun k b => ?_)
    cases k with
    | flight => exact hperm.mem_iff
    | login l => exact and_congr_left (fun _ => hno l)
    | _ => exact Iff.rfl
  · exact fun l d j g hn hb hg hu => ho.awaited l d j g ((hno l).mp hn) hb hg hu

/-! ## The end of a login -/

/-- A login without an output buffer is as good as answered. -/
theorem unanswered (ho : Owned kind (.login l) p F) (hb : p.heap.block l = some (.loginInfo d))
    (hd : d.output = none) : Owned kind (.answered l) p F := by
  have hl := ho.logins
  have hn {l' : ℕ} : Hand.login l ≠ .answered l' := Hand.noConfusion
  refine ho.around (.refl _ _ p) ho.next_ne_greeting rfl (fun j g hg => ho.ptr_ne_next hg) ?_ ?_ ?_
    (fun _ _ _ _ _ => rfl)
  · exact { hl with output := fun l d a _ hb => hl.output l d a hn hb }
  · refine ho.exclusive.congr (fun _ => Iff.rfl) (fun k c => ?_)
    cases k with
    | login l' =>
      constructor
      · exact fun hk => ⟨hn,hk.2⟩
      · rintro ⟨-,d',hb',hd'⟩
        refine ⟨?_,d',hb',hd'⟩
        rintro ⟨⟩
        rw [hb] at hb'
        cases hb'
        rw [hd] at hd'
        cases hd'
    | _ => exact Iff.rfl
  · exact fun l d j g _ hb hg hu => ho.awaited l d j g hn hb hg hu

end Owned

/-- The logins wait where they did, and nothing has been misused. -/
structure SameQueues (p q : Shared) : Prop where
  dbTasks : q.dbTasks = p.dbTasks
  dbThread : q.dbThread = p.dbThread
  serverTasks : q.serverTasks = p.serverTasks
  misused : q.record.misused = p.record.misused

theorem SameQueues.inFlight (hs : SameQueues p p') : p'.inFlight = p.inFlight := by
  rw [Shared.inFlight, Shared.inFlight, hs.dbTasks, hs.dbThread, hs.serverTasks]

/-- A login has been resolved and its `login_info` freed. -/
structure Freed (l : ℕ) (p q : Shared) : Prop extends SameQueues p q where
  self : q.heap.block l = none
  block : ∀ x, x ≠ l → q.heap.block x = p.heap.block x
  idle : q.idle = p.idle
  next : q.heap.next = p.heap.next
  notes : q.record.notes = p.record.notes ++ [.touched l]
  made : q.record.made = p.record.made
  resolved : q.record.resolved = l :: p.record.resolved
  acquired : q.record.acquired = p.record.acquired
  released : q.record.released = p.record.released

theorem freed_freeLogin (hat : p.loginAt l = some d) : Freed l p (p.freeLogin l) := by
  rw [Shared.freeLogin, hat]
  exact ⟨⟨rfl,rfl,rfl,rfl⟩,Heap.block_free_self,fun x hx => Heap.block_free_of_ne hx,
    rfl,rfl,rfl,rfl,rfl,rfl,rfl⟩

namespace Freed
variable {q : Shared} {y : Block}

theorem other (hf : Freed l p q) (hx : q.heap.block x = some y) :
    x ≠ l ∧ p.heap.block x = some y := by
  have hxl : x ≠ l := by
    rintro rfl
    rw [hf.self] at hx
    cases hx
  exact ⟨hxl,(hf.block x hxl).symm.trans hx⟩

theorem outbuf (hf : Freed l p q) (hb : p.heap.block l = some (.loginInfo d)) :
    (∃ o, q.heap.block x = some (.outbuf o)) ↔ ∃ o, p.heap.block x = some (.outbuf o) := by
  constructor
  · rintro ⟨o,ho⟩
    exact ⟨o,(hf.other ho).2⟩
  · rintro ⟨o,ho⟩
    refine ⟨o,(hf.block x ?_).trans ho⟩
    rintro rfl
    rw [hb] at ho
    cases ho

theorem acquiredFor (hf : Freed l p q) (x : ℕ) : q.acquiredFor x = p.acquiredFor x := by
  rw [Shared.acquiredFor, Shared.acquiredFor, hf.acquired]

theorem aside (hf : Freed l p q) : Aside l none p q :=
  ⟨hf.block,_,hf.notes,fun _ hn => .inl (List.mem_singleton.mp hn)⟩

theorem live (hf : Freed l p q) : q.Live x ↔ x ≠ l ∧ p.Live x := by
  unfold Shared.Live
  by_cases hx : x = l
  · subst hx
    simp [hf.self]
  · simp [hf.block x hx,hx]

theorem not_answered {m : ℕ} (h : m ≠ l) : Hand.answered l ≠ .answered m :=
  fun he => h (Hand.answered.inj he).symm

theorem ne_of_inFlight (hl : Logins (.answered l) p) : ∀ m ∈ p.inFlight, m ≠ l := by
  rintro m hm rfl
  exact (List.nodup_cons.mp (inFlight_nodup hl)).1 hm

theorem logins (hf : Freed l p q) (hl : Logins (.answered l) p)
    (hb : p.heap.block l = some (.loginInfo d)) : Logins .empty q := by
  constructor
  · rw [hf.idle]
    exact hl.idleOnce
  · intro a hm
    rw [hf.idle] at hm
    exact (hf.outbuf hb).mpr (hl.idle a hm)
  · intro m hm
    rw [hf.inFlight] at hm
    obtain ⟨e,he⟩ := hl.flight m (List.mem_append_right _ hm)
    exact ⟨e,(hf.block m (ne_of_inFlight hl m hm)).trans he⟩
  · intro m e a _ he ha
    obtain ⟨hne,he⟩ := hf.other he
    obtain ⟨ho,hac⟩ := hl.output m e a (not_answered hne) he ha
    exact ⟨(hf.outbuf hb).mpr ho,(hf.acquiredFor a).trans hac⟩
  · intro l₁ l₂ d₁ d₂ h₁ h₂
    exact hl.distinct l₁ l₂ d₁ d₂ (hf.other h₁).2 (hf.other h₂).2
  · intro m hm e he
    rw [hf.dbTasks, hf.dbThread] at hm
    exact hl.unanswered m hm e (hf.other he).2
  · intro m hm e he
    rw [hf.dbThread] at hm
    exact hl.answered m hm e (hf.other he).2
  · rw [hf.made, hf.resolved, hf.inFlight]
    exact hl.made.trans List.perm_middle
  · rw [hf.made]
    exact hl.madeOnce
  · intro m hm
    rw [hf.made] at hm
    rw [hf.next]
    exact hl.older m hm
  · intro a
    rw [outbufAt_congr (by rw [hf.idle]) (hf.outbuf hb), hf.acquired, hf.released]
    exact hl.acquired a

/-- Nobody else loses what they hold. -/
theorem holds (hf : Freed l p q) (ho : Owned kind (.answered l) p F)
    (hb : p.heap.block l = some (.loginInfo d)) :
    Holds .empty q F k x ↔ x ≠ l ∧ Holds (.answered l) p F k x := by
  have hl := ho.logins
  cases k with
  | pool =>
    change x ∈ q.idle ↔ _ ∧ x ∈ p.idle
    rw [hf.idle]
    refine ⟨fun hm => ⟨?_,hm⟩,And.right⟩
    rintro rfl
    exact ho.login_not_idle hb hm
  | flight =>
    change x ∈ q.inFlight ↔ x ≠ l ∧ x ∈ l :: p.inFlight
    rw [hf.inFlight, List.mem_cons]
    exact ⟨fun hm => ⟨ne_of_inFlight hl x hm,.inr hm⟩,fun hm => hm.2.resolve_left hm.1⟩
  | login m =>
    constructor
    · rintro ⟨-,e,he,hx⟩
      obtain ⟨hne,he⟩ := hf.other he
      obtain ⟨⟨o,ho'⟩,-⟩ := hl.output m e x (not_answered hne) he hx
      refine ⟨?_,not_answered hne,e,he,hx⟩
      rintro rfl
      rw [hb] at ho'
      cases ho'
    · rintro ⟨-,hh,e,he,hx⟩
      refine ⟨nofun,e,(hf.block m ?_).trans he,hx⟩
      rintro rfl
      exact hh rfl
  | conn uid =>
    refine ⟨fun hk => ⟨?_,hk⟩,And.right⟩
    obtain ⟨j,g,hg,-,hd⟩ := hk
    exact ho.ptr_ne_login hb j g hg x hd

end Freed

/-- The `login_info` is freed, and this is what resolves it. -/
theorem Owned.freeLogin (ho : Owned kind (.answered l) p F) :
    Owned kind .empty (p.freeLogin l) F := by
  obtain ⟨d,hb⟩ := ho.logins.flight l (List.mem_append_left _ (List.mem_singleton_self l))
  have hf := freed_freeLogin (ho.loginAt hb)
  refine ho.around hf.aside ((live_of_block hb (by simp)).ne_greeting ho.greeting) hf.misused
    (ho.ptr_ne_login hb) (hf.logins ho.logins hb)
    (ho.exclusive.drop (fun _ => hf.live) (fun _ _ => hf.holds ho hb)) ?_
    (fun _ _ a _ _ => hf.acquiredFor a)
  intro m e j g _ he hg hu
  obtain ⟨hne,he⟩ := hf.other he
  exact ho.awaited m e j g (Freed.not_answered hne) he hg hu

/-! ## Outbufs go back -/

/-- An outbuf has been put into the list, or freed because the list is full. -/
structure Released (a : ℕ) (p q : Shared) : Prop where
  block : ∀ x, x ≠ a → q.heap.block x = p.heap.block x
  rest : q.idle = a :: p.idle ∧ q.heap.block a = p.heap.block a ∨
    q.idle = p.idle ∧ q.heap.block a = none
  notes : q.record.notes = p.record.notes ++ [.touched a]
  dbTasks : q.dbTasks = p.dbTasks
  dbThread : q.dbThread = p.dbThread
  serverTasks : q.serverTasks = p.serverTasks
  next : q.heap.next = p.heap.next
  made : q.record.made = p.record.made
  resolved : q.record.resolved = p.record.resolved
  acquired : q.record.acquired = p.record.acquired
  released : q.record.released = a :: p.record.released
  misused : q.record.misused = p.record.misused

theorem released_outbufRelease (hb : p.outbufAt a = some b) : Released a p (p.outbufRelease a) := by
  rw [Shared.outbufRelease, hb]
  dsimp only
  split
  · exact ⟨fun _ _ => rfl,.inl ⟨rfl,rfl⟩,rfl,rfl,rfl,rfl,rfl,rfl,rfl,rfl,rfl,rfl⟩
  · exact ⟨fun x hx => Heap.block_free_of_ne hx,.inr ⟨rfl,Heap.block_free_self⟩,rfl,rfl,rfl,rfl,rfl,
      rfl,rfl,rfl,rfl,rfl⟩

namespace Released
variable {q : Shared} {F' : ℕ → Option Face}

theorem inFlight (hr : Released a p q) : q.inFlight = p.inFlight := by
  rw [Shared.inFlight, Shared.inFlight, hr.dbTasks, hr.dbThread, hr.serverTasks]

theorem acquiredFor (hr : Released a p q) (x : ℕ) : q.acquiredFor x = p.acquiredFor x := by
  rw [Shared.acquiredFor, Shared.acquiredFor, hr.acquired]

theorem aside (hr : Released a p q) : Aside a none p q :=
  ⟨hr.block,_,hr.notes,fun _ hn => .inl (List.mem_singleton.mp hn)⟩

/-- Other blocks are the same, and so are all logins. -/
theorem login (hr : Released a p q) (hb : p.heap.block a = some (.outbuf b)) :
    q.heap.block l = some (.loginInfo d) ↔ p.heap.block l = some (.loginInfo d) := by
  by_cases hl : l = a
  · subst hl
    rw [hb]
    rcases hr.rest with ⟨-,ha⟩ | ⟨-,ha⟩ <;> simp [ha,hb]
  · rw [hr.block l hl]

theorem logins (hr : Released a p q) (hl : Logins hand p) (hat : p.outbufAt a = some b)
    (hlog : hand'.logins = hand.logins)
    (hhand : ∀ l d, p.heap.block l = some (.loginInfo d) → (hand' ≠ .answered l ↔
      hand ≠ .answered l ∧ d.output ≠ some a)) : Logins hand' q := by
  obtain ⟨hi,hb⟩ := heap_of_block (outbufAt_eq.mp hat)
  have hlogin (l : ℕ) (d : LoginState) : q.heap.block l = some (.loginInfo d) ↔
      p.heap.block l = some (.loginInfo d) := hr.login hb
  constructor
  · rcases hr.rest with ⟨hidle,-⟩ | ⟨hidle,-⟩ <;> rw [hidle]
    · exact List.nodup_cons.mpr ⟨hi,hl.idleOnce⟩
    · exact hl.idleOnce
  · intro x hx
    have hold (hm : x ∈ p.idle) : ∃ o, q.heap.block x = some (.outbuf o) := by
      rw [hr.block x (fun he => hi (he ▸ hm))]
      exact hl.idle x hm
    rcases hr.rest with ⟨hidle,ha⟩ | ⟨hidle,-⟩ <;> rw [hidle] at hx
    · rcases List.mem_cons.mp hx with rfl | hm
      · exact ⟨b,ha.trans hb⟩
      · exact hold hm
    · exact hold hx
  · intro l hm
    rw [hlog, hr.inFlight] at hm
    obtain ⟨d,hd⟩ := hl.flight l hm
    exact ⟨d,(hlogin l d).mpr hd⟩
  · intro l d x hh hb' hd
    rw [hlogin] at hb'
    obtain ⟨hn,hne⟩ := (hhand l d hb').mp hh
    obtain ⟨ho',hac⟩ := hl.output l d x hn hb' hd
    have hx : x ≠ a := fun he => hne (he ▸ hd)
    rw [hr.block x hx, hr.acquiredFor]
    exact ⟨ho',hac⟩
  · intro l l' d d' h h'
    exact hl.distinct l l' d d' ((hlogin l d).mp h) ((hlogin l' d').mp h')
  · intro l hm d hb'
    rw [hr.dbTasks, hr.dbThread] at hm
    exact hl.unanswered l hm d ((hlogin l d).mp hb')
  · intro l hm d hb'
    rw [hr.dbThread] at hm
    exact hl.answered l hm d ((hlogin l d).mp hb')
  · rw [hr.made, hr.resolved, hlog, hr.inFlight]
    exact hl.made
  · rw [hr.made]
    exact hl.madeOnce
  · intro l hm
    rw [hr.made] at hm
    rw [hr.next]
    exact hl.older l hm
  · intro x
    rw [hr.acquired, hr.released]
    have hold := hl.acquired x
    by_cases hx : x = a
    · subst hx
      have hgone : (q.outbufAt x).isSome = false := by
        rw [← Bool.not_eq_true, outbufAt_isSome]
        rintro ⟨hi',o,ho'⟩
        rcases hr.rest with ⟨hidle,-⟩ | ⟨-,ha⟩
        · exact hi' (hidle ▸ List.mem_cons_self)
        · rw [ha] at ho'
          cases ho'
      rw [hat] at hold
      rw [hgone, List.count_cons_self, hold]
      rfl
    · have hsame : (q.outbufAt x).isSome = (p.outbufAt x).isSome := by
        have hidle : x ∈ q.idle ↔ x ∈ p.idle := by
          rcases hr.rest with ⟨hidle,-⟩ | ⟨hidle,-⟩ <;> simp [hidle,hx]
        exact outbufAt_congr hidle (by rw [hr.block x hx])
      rw [hsame, List.count_cons_of_ne (Ne.symm hx)]
      exact hold

/-- Everybody else holds what they held, but for the outbuf. -/
theorem exclusive (hr : Released a p q) (he : Exclusive p.Live (Holds hand p F)) (hi : a ∉ p.idle)
    (hb : p.heap.block a = some (.outbuf b))
    (hh : ∀ k x, k ≠ .pool → (Holds hand' q F' k x ↔ x ≠ a ∧ Holds hand p F k x)) :
    Exclusive q.Live (Holds hand' q F') := by
  have hla : p.Live a := live_of_block hb (by simp)
  rcases hr.rest with ⟨hidle,ha⟩ | ⟨hidle,ha⟩
  · have hheap : q.heap.block = p.heap.block := by
      funext x
      by_cases hx : x = a
      · rw [hx, ha]
      · exact hr.block x hx
    have hpool (k : Holder) (x : ℕ) : Holds hand' q F' k x ↔
        x = a ∧ k = .pool ∨ x ≠ a ∧ Holds hand p F k x := by
      by_cases hk : k = .pool
      · subst hk
        change x ∈ q.idle ↔ x = a ∧ _ ∨ x ≠ a ∧ x ∈ p.idle
        rw [hidle, List.mem_cons]
        by_cases hx : x = a <;> simp [hx]
      · rw [hh k x hk]
        simp [hk]
    refine he.give (fun x => ?_) hpool
    unfold Shared.Live
    rw [hheap]
    exact ⟨.inr,fun hx => hx.elim (fun hx => hx ▸ hla) id⟩
  · have hpool (k : Holder) (x : ℕ) : Holds hand' q F' k x ↔ x ≠ a ∧ Holds hand p F k x := by
      by_cases hk : k = .pool
      · subst hk
        change x ∈ q.idle ↔ x ≠ a ∧ x ∈ p.idle
        rw [hidle]
        exact ⟨fun hm => ⟨fun hx => hi (hx ▸ hm),hm⟩,And.right⟩
      · exact hh k x hk
    refine he.drop (fun x => ?_) hpool
    unfold Shared.Live
    by_cases hx : x = a
    · subst hx
      simp [ha]
    · simp [hr.block x hx,hx]

theorem others (hr : Released a p q) (hl : Logins hand p) (hb : p.heap.block a = some (.outbuf b))
    (hlog : hand'.logins = hand.logins)
    (hhand : ∀ l d, p.heap.block l = some (.loginInfo d) → (hand' ≠ .answered l ↔
      hand ≠ .answered l ∧ d.output ≠ some a)) (hp : k ≠ .pool) (hc : ∀ uid, k ≠ .conn uid) :
    Holds hand' q F' k x ↔ x ≠ a ∧ Holds hand p F k x := by
  cases k with
  | pool => exact absurd rfl hp
  | flight =>
    change x ∈ hand'.logins ++ q.inFlight ↔ x ≠ a ∧ x ∈ hand.logins ++ p.inFlight
    rw [hlog, hr.inFlight]
    refine ⟨fun hm => ⟨?_,hm⟩,And.right⟩
    rintro rfl
    obtain ⟨d,hd⟩ := hl.flight x hm
    rw [hb] at hd
    cases hd
  | login l =>
    constructor
    · rintro ⟨hh,d,hd,hx⟩
      have hd' := (hr.login hb).mp hd
      obtain ⟨hn,hne⟩ := (hhand l d hd').mp hh
      exact ⟨fun he => hne (he ▸ hx),hn,d,hd',hx⟩
    · rintro ⟨hne,hn,d,hd,hx⟩
      refine ⟨(hhand l d hd).mpr ⟨hn,?_⟩,d,(hr.login hb).mpr hd,hx⟩
      rw [hx]
      exact fun he => hne (Option.some.inj he)
  | conn uid => exact absurd rfl (hc uid)

end Released

namespace Owned

/-- The output buffer of a login in flight is its own. -/
theorem output (ho : Owned kind hand p F) (hh : hand ≠ .answered l)
    (hb : p.heap.block l = some (.loginInfo d)) (hd : d.output = some a) :
    ∃ o, p.outbufAt a = some o ∧ p.heap.block a = some (.outbuf o) := by
  obtain ⟨⟨o,ho'⟩,-⟩ := ho.logins.output l d a hh hb hd
  refine ⟨o,outbufAt_eq.mpr (block_of_heap (fun hm => ?_) ho'),ho'⟩
  have hpool : Holds hand p F .pool a := hm
  have hlogin : Holds hand p F (.login l) a := ⟨hh,d,hb,hd⟩
  exact Holder.noConfusion (ho.exclusive.unique hpool hlogin)

theorem conn_ne_output (ho : Owned kind hand p F) (hh : hand ≠ .answered l)
    (hb : p.heap.block l = some (.loginInfo d)) (hd : d.output = some a) :
    ∀ j g, F j = some g → ∀ x, g.udata = .ptr x → x ≠ a := by
  intro j g hg x hx
  have hconn : Holds hand p F (.conn g.uid) x := ⟨j,g,hg,rfl,hx⟩
  have hlogin : Holds hand p F (.login l) a := ⟨hh,d,hb,hd⟩
  exact ho.exclusive.ne hconn hlogin Holder.noConfusion

/-- A login whose connection is gone gives its output buffer back. -/
theorem releaseOutput (ho : Owned kind (.login l) p F)
    (hb : p.heap.block l = some (.loginInfo d)) (hd : d.output = some a) :
    Owned kind (.answered l) (p.outbufRelease a) F := by
  have hn {l' : ℕ} : Hand.login l ≠ .answered l' := Hand.noConfusion
  obtain ⟨o,hat,hout⟩ := ho.output hn hb hd
  have hr := released_outbufRelease hat
  have hhand (l' : ℕ) (d' : LoginState) (hb' : p.heap.block l' = some (.loginInfo d')) :
      Hand.answered l ≠ .answered l' ↔ Hand.login l ≠ .answered l' ∧ d'.output ≠ some a := by
    constructor
    · refine fun hne => ⟨hn,fun hd' => ?_⟩
      have hold : Holds (.login l) p F (.login l) a := ⟨hn,d,hb,hd⟩
      have hold' : Holds (.login l) p F (.login l') a := ⟨hn,d',hb',hd'⟩
      exact hne (congrArg _ (Holder.login.inj (ho.exclusive.unique hold hold')))
    · rintro ⟨-,hne⟩ ⟨⟩
      rw [hb] at hb'
      cases hb'
      exact hne hd
  have hne := ho.conn_ne_output hn hb hd
  refine ho.around hr.aside ((live_of_block hout (by simp)).ne_greeting ho.greeting) hr.misused hne
    (hr.logins ho.logins hat rfl hhand)
    (hr.exclusive ho.exclusive (heap_of_block (outbufAt_eq.mp hat)).1 hout ?_) ?_
    (fun _ _ x _ _ => hr.acquiredFor x)
  · intro k x hk
    by_cases hc : ∃ uid, k = .conn uid
    · obtain ⟨uid,rfl⟩ := hc
      refine ⟨fun hold => ⟨?_,hold⟩,And.right⟩
      obtain ⟨j,g,hg,-,hx⟩ := hold
      exact hne j g hg x hx
    · exact hr.others ho.logins hout rfl hhand hk (fun uid he => hc ⟨uid,he⟩)
  · intro l' d' j g _ hb' hg hu
    exact ho.awaited l' d' j g hn ((hr.login hout).mp hb') hg hu

/-- A connection gives its outbuf back, and may go with it. -/
theorem releaseUdata (ho : Owned kind .empty p F) (hslot : Slotted F) (hi : F i = some f)
    (hd : f.udata = .ptr a) (hb : p.heap.block a = some (.outbuf b)) {of : Option Face}
    (hof : ∀ g, of = some g → g.uid = f.uid ∧ g.udata = .null ∧ g.busy = false ∧
      g.proto.map kind = some .login) :
    Owned kind .empty (p.outbufRelease a) (Function.update F i of) := by
  have hidle := ho.conn_not_idle hi hd
  have hat : p.outbufAt a = some b := outbufAt_eq.mpr (block_of_heap hidle hb)
  have hr := released_outbufRelease hat
  have hx := (ho.live hi hd).ne_greeting ho.greeting
  have hno : ∀ g, of = some g → ∀ c, g.udata ≠ .ptr c := by
    intro g hg c hc
    rw [(hof g hg).2.1] at hc
    cases hc
  have hhand (l : ℕ) (d : LoginState) (hl : p.heap.block l = some (.loginInfo d)) :
      Hand.empty ≠ .answered l ↔ Hand.empty ≠ .answered l ∧ d.output ≠ some a := by
    refine ⟨fun hh => ⟨hh,fun hd' => ?_⟩,And.left⟩
    exact ho.conn_ne_output hh hl hd' i f hi a hd rfl
  have hother {j : ℕ} {g : Face} (hj : j ≠ i) (hg : Function.update F i of j = some g) :
      F j = some g := by
    rwa [Function.update_of_ne hj] at hg
  have hself {g : Face} (hg : Function.update F i of i = some g) : of = some g := by
    rwa [Function.update_self] at hg
  refine ⟨hr.misused.trans ho.sane,(hr.block _ hx.symm).trans ho.greeting,
    hr.exclusive ho.exclusive hidle hb ?_,hr.logins ho.logins hat rfl hhand,?_,?_,?_⟩
  · intro k x hk
    by_cases hc : ∃ uid, k = .conn uid
    · obtain ⟨uid,rfl⟩ := hc
      exact ho.holds_dropPtr hslot hi hd hno
    · exact hr.others ho.logins hb rfl hhand hk (fun uid he => hc ⟨uid,he⟩)
  · intro j g hg
    by_cases hj : j = i
    · subst hj
      obtain ⟨-,hnull,hbusy,hk⟩ := hof g (hself hg)
      rw [FaceOk, hk]
      exact ⟨.inl hnull,fun _ => hnull,fun hb' => by rw [hbusy] at hb'; cases hb'⟩
    · exact (ho.face j g (hother hj hg)).aside hr.aside (ho.ptr_ne hslot hi hd (hother hj hg) hj) hx
        (by rintro ⟨⟩)
  · intro l d j g hh hl hg hu
    have hl' := (hr.login hb).mp hl
    by_cases hj : j = i
    · subst hj
      obtain ⟨-,-,hnull⟩ := ho.awaited l d j f hh hl' hi ((hof g (hself hg)).1 ▸ hu)
      rw [hd] at hnull
      cases hnull
    · exact ho.awaited l d j g hh hl' (hother hj hg) hu
  · intro j g c o hg hc hbc
    rw [hr.acquiredFor]
    by_cases hj : j = i
    · subst hj
      exact absurd hc (hno g (hself hg) c)
    · rw [hr.block c (ho.ptr_ne hslot hi hd (hother hj hg) hj c hc)] at hbc
      exact ho.acquiredFor j g c o (hother hj hg) hc hbc

end Owned

end Kaplar.Protocol
