import Kaplar.Protocol.Handlers
import Mathlib.Data.List.Nodup
import Mathlib.Data.List.Perm.Basic

/-! # Who owns what

An echo handle belongs to its connection. An outbuf is idle, or belongs to a login in
flight, or to the connection the login has been resolved for. A `login_info` is in one
of the queues, with the database thread, or at hand in the code that runs. While a
connection is busy the block it sends from stays as it was when it was sent.
-/
namespace Kaplar.Protocol
open Kaplar.Server

inductive Holder where
  | pool | flight
  | login (l : ℕ)
  | conn (uid : UInt32)

/-- The login the running code has at hand, with its output buffer or without it. -/
inductive Hand where
  | empty
  | login (l : ℕ)
  | answered (l : ℕ)

def Hand.logins : Hand → List ℕ
  | empty => []
  | login l | answered l => [l]

/-- Who holds a pointer to a block. -/
def Holds (hand : Hand) (p : Shared) (F : ℕ → Option Face) : Holder → ℕ → Prop
  | .pool, a => a ∈ p.idle
  | .flight, a => a ∈ hand.logins ++ p.inFlight
  | .login l, a => hand ≠ .answered l ∧
      ∃ d, p.heap.block l = some (.loginInfo d) ∧ d.output = some a
  | .conn uid, a => ∃ i f, F i = some f ∧ f.uid = uid ∧ f.udata = .ptr a

/-- A block that somebody has to free. -/
def Shared.Live (p : Shared) (a : ℕ) : Prop :=
  ∃ b, p.heap.block a = some b ∧ ∀ data, b ≠ .static data

/-- Since a connection has last sent something nothing has happened to what it sends. -/
def Steady (p : Shared) (f : Face) : Prop := ∃ b ns ns', p.heap.block f.outputData = some b ∧
  p.record.notes = ns ++ .sent f.uid f.outputData (b.output f.outputLen) :: ns' ∧
    ∀ n ∈ ns', n ≠ .touched f.outputData ∧ ∀ a bytes, n ≠ .sent f.uid a bytes

/-- What a connection may hold and send, by its protocol. -/
def Suits (p : Shared) (f : Face) : Option Kind → Prop
  | none => (∀ a, f.udata ≠ .ptr a) ∧ f.busy = false
  | some .echo => ∃ a h, f.udata = .ptr a ∧ p.heap.block a = some (.echoHandle h) ∧
      (f.busy = true → h.outputReady = false ∧ f.outputData = a ∧ Steady p f)
  | some .login => (f.udata = .null ∨ ∃ a b, f.udata = .ptr a ∧ p.heap.block a = some (.outbuf b)) ∧
      (f.firstMsg = false → f.udata = .null) ∧
      (f.busy = true → f.udata = .ptr f.outputData ∧ Steady p f)
  | some .game => f.udata = .null ∧ (f.busy = true → f.outputData = greetingAt ∧ Steady p f)

variable (kind : ℕ → Kind)

def FaceOk (p : Shared) (f : Face) : Prop := Suits p f (f.proto.map kind)

/-- A connection whose login has not been resolved yet. -/
def Awaits (f : Face) : Prop := f.proto.map kind = some .login ∧ f.firstMsg = true ∧ f.udata = .null

/-- The connection an outbuf has last been handed out for. -/
def Shared.acquiredFor (p : Shared) (a : ℕ) : Option UInt32 :=
  (p.record.acquired.find? (fun x => x.1 == a)).map Prod.snd

/-- What holds of the logins and the outbufs. -/
structure Logins (hand : Hand) (p : Shared) : Prop where
  idleOnce : p.idle.Nodup
  idle : ∀ a ∈ p.idle, ∃ b, p.heap.block a = some (.outbuf b)
  flight : ∀ l ∈ hand.logins ++ p.inFlight, ∃ d, p.heap.block l = some (.loginInfo d)
  output : ∀ l d a, hand ≠ .answered l → p.heap.block l = some (.loginInfo d) →
    d.output = some a → (∃ b, p.heap.block a = some (.outbuf b)) ∧
      p.acquiredFor a = some d.connection
  distinct : ∀ l l' d d', p.heap.block l = some (.loginInfo d) →
    p.heap.block l' = some (.loginInfo d') → d.connection = d'.connection → l = l'
  unanswered : ∀ l, l ∈ p.dbTasks ∨ p.dbThread = .resolving l → ∀ d,
    p.heap.block l = some (.loginInfo d) → d.output = none
  answered : ∀ l, p.dbThread = .writing l → ∀ d, p.heap.block l = some (.loginInfo d) →
    d.output ≠ none
  made : p.record.made.Perm (p.record.resolved ++ (hand.logins ++ p.inFlight))
  madeOnce : p.record.made.Nodup
  older : ∀ l ∈ p.record.made, l < p.heap.next
  acquired : ∀ a, (p.record.acquired.map Prod.fst).count a =
    p.record.released.count a + if (p.outbufAt a).isSome then 1 else 0

/-- What holds between the steps, and in the code that runs with a login at hand. -/
structure Owned (hand : Hand) (p : Shared) (F : ℕ → Option Face) : Prop where
  sane : p.record.misused = false
  greeting : p.heap.block greetingAt = some (.static greeting)
  exclusive : Exclusive p.Live (Holds hand p F)
  logins : Logins hand p
  face : ∀ i f, F i = some f → FaceOk kind p f
  awaited : ∀ l d i f, hand ≠ .answered l → p.heap.block l = some (.loginInfo d) →
    F i = some f → f.uid = d.connection → Awaits kind f
  acquiredFor : ∀ i f a b, F i = some f → f.udata = .ptr a → p.heap.block a = some (.outbuf b) →
    p.acquiredFor a = some f.uid

variable {kind} {hand hand' : Hand} {p p' : Shared} {F F' : ℕ → Option Face} {f : Face} {i a l : ℕ}
  {k : Holder}

section Lookups

theorem block_of_heap {b : Block} (hi : a ∉ p.idle) (hb : p.heap.block a = some b) :
    p.block a = some b := by rw [Shared.block, if_neg hi, hb]

theorem heap_of_block {b : Block} (hb : p.block a = some b) :
    a ∉ p.idle ∧ p.heap.block a = some b := by
  by_cases hi : a ∈ p.idle
  · rw [Shared.block, if_pos hi] at hb
    cases hb
  · rw [Shared.block, if_neg hi] at hb
    exact ⟨hi,hb⟩

theorem echoAt_eq {h : EchoHandle} : p.echoAt a = some h ↔ p.block a = some (.echoHandle h) := by
  unfold Shared.echoAt
  split <;> simp_all

theorem outbufAt_eq {b : Outbuf} : p.outbufAt a = some b ↔ p.block a = some (.outbuf b) := by
  unfold Shared.outbufAt
  split <;> simp_all

theorem loginAt_eq {d : LoginState} : p.loginAt a = some d ↔ p.block a = some (.loginInfo d) := by
  unfold Shared.loginAt
  split <;> simp_all

theorem live_of_block {b : Block} (hb : p.heap.block a = some b) (hs : ∀ data, b ≠ .static data) :
    p.Live a := ⟨b,hb,hs⟩

theorem Shared.Live.ne_greeting (hl : p.Live a)
    (hg : p.heap.block greetingAt = some (.static greeting)) : a ≠ greetingAt := by
  rintro rfl
  obtain ⟨b,hb,hs⟩ := hl
  rw [hg] at hb
  cases hb
  exact hs _ rfl

end Lookups

/-! ## Changes that leave the logins alone -/

section Frame
variable {x : ℕ} {u : Option UInt32} {g : Face}

/-- A change of one block, with what is on record of it and of a send. -/
structure Aside (x : ℕ) (u : Option UInt32) (p p' : Shared) : Prop where
  heap : ∀ a, a ≠ x → p'.heap.block a = p.heap.block a
  notes : ∃ es, p'.record.notes = p.record.notes ++ es ∧
    ∀ n ∈ es, n = .touched x ∨ ∃ uid a bytes, u = some uid ∧ n = .sent uid a bytes

theorem Aside.refl (x : ℕ) (u : Option UInt32) (p : Shared) : Aside x u p p :=
  ⟨fun _ _ => rfl,[],(List.append_nil _).symm,nofun⟩

theorem Steady.aside (hs : Steady p g) (ha : Aside x u p p') (hx : g.outputData ≠ x)
    (hu : u ≠ some g.uid) : Steady p' g := by
  obtain ⟨b,ns,ns',hb,hn,hrest⟩ := hs
  obtain ⟨es,hes,hall⟩ := ha.notes
  refine ⟨b,ns,ns' ++ es,(ha.heap _ hx).trans hb,?_,?_⟩
  · rw [hes, hn, List.append_assoc, List.cons_append]
  · intro n hm
    rcases List.mem_append.mp hm with hm | hm
    · exact hrest n hm
    · rcases hall n hm with rfl | ⟨uid,a,bytes,rfl,rfl⟩
      · refine ⟨?_,fun _ _ => Note.noConfusion⟩
        intro he
        cases he
        exact hx rfl
      · refine ⟨Note.noConfusion,?_⟩
        intro a' bytes' he
        cases he
        exact hu rfl

/-- A connection that neither holds the block nor sends is left as it was. -/
theorem FaceOk.aside (hf : FaceOk kind p g) (ha : Aside x u p p')
    (hx : ∀ a, g.udata = .ptr a → a ≠ x) (hg : x ≠ greetingAt) (hu : u ≠ some g.uid) :
    FaceOk kind p' g := by
  unfold FaceOk at hf ⊢
  cases hk : g.proto.map kind with
  | none =>
    rw [hk] at hf
    exact hf
  | some k =>
    rw [hk] at hf
    cases k with
    | echo =>
      obtain ⟨a,h,hptr,hb,hbusy⟩ := hf
      refine ⟨a,h,hptr,(ha.heap a (hx a hptr)).trans hb,fun hb' => ?_⟩
      obtain ⟨hr,ho,hs⟩ := hbusy hb'
      exact ⟨hr,ho,hs.aside ha (ho ▸ hx a hptr) hu⟩
    | login =>
      obtain ⟨hd,hfirst,hbusy⟩ := hf
      refine ⟨hd.imp_right ?_,hfirst,fun hb' => ?_⟩
      · rintro ⟨a,b,hptr,hb⟩
        exact ⟨a,b,hptr,(ha.heap a (hx a hptr)).trans hb⟩
      · obtain ⟨hptr,hs⟩ := hbusy hb'
        exact ⟨hptr,hs.aside ha (hx _ hptr) hu⟩
    | game =>
      obtain ⟨hd,hbusy⟩ := hf
      refine ⟨hd,fun hb' => ?_⟩
      obtain ⟨ho,hs⟩ := hbusy hb'
      exact ⟨ho,hs.aside ha (ho ▸ hg.symm) hu⟩

/-- Nothing has changed for the logins and the outbufs. -/
structure SameLogins (p p' : Shared) : Prop where
  logins : ∀ l d, p'.heap.block l = some (.loginInfo d) ↔ p.heap.block l = some (.loginInfo d)
  outbufs : ∀ a, (∃ b, p'.heap.block a = some (.outbuf b)) ↔ ∃ b, p.heap.block a = some (.outbuf b)
  idle : p'.idle = p.idle
  dbTasks : p'.dbTasks = p.dbTasks
  dbThread : p'.dbThread = p.dbThread
  serverTasks : p'.serverTasks = p.serverTasks
  next : p.heap.next ≤ p'.heap.next
  made : p'.record.made = p.record.made
  resolved : p'.record.resolved = p.record.resolved
  acquired : p'.record.acquired = p.record.acquired
  released : p'.record.released = p.record.released
  misused : p'.record.misused = p.record.misused

theorem SameLogins.refl (p : Shared) : SameLogins p p :=
  ⟨fun _ _ => Iff.rfl,fun _ => Iff.rfl,rfl,rfl,rfl,rfl,Nat.le_refl _,rfl,rfl,rfl,rfl,rfl⟩

theorem SameLogins.inFlight (hs : SameLogins p p') : p'.inFlight = p.inFlight := by
  rw [Shared.inFlight, Shared.inFlight, hs.dbTasks, hs.dbThread, hs.serverTasks]

theorem SameLogins.acquiredFor (hs : SameLogins p p') (a : ℕ) :
    p'.acquiredFor a = p.acquiredFor a := by
  rw [Shared.acquiredFor, Shared.acquiredFor, hs.acquired]

theorem outbufAt_isSome : (p.outbufAt a).isSome = true ↔
    a ∉ p.idle ∧ ∃ b, p.heap.block a = some (.outbuf b) := by
  constructor
  · intro hs
    obtain ⟨b,hb⟩ := Option.isSome_iff_exists.mp hs
    obtain ⟨hi,hb⟩ := heap_of_block (outbufAt_eq.mp hb)
    exact ⟨hi,b,hb⟩
  · rintro ⟨hi,b,hb⟩
    rw [outbufAt_eq.mpr (block_of_heap hi hb)]
    rfl

theorem outbufAt_congr (hi : a ∈ p'.idle ↔ a ∈ p.idle)
    (ho : (∃ b, p'.heap.block a = some (.outbuf b)) ↔ ∃ b, p.heap.block a = some (.outbuf b)) :
    (p'.outbufAt a).isSome = (p.outbufAt a).isSome := by
  rw [Bool.eq_iff_iff, outbufAt_isSome, outbufAt_isSome, hi, ho]

theorem SameLogins.outbufAt (hs : SameLogins p p') (a : ℕ) :
    (p'.outbufAt a).isSome = (p.outbufAt a).isSome :=
  outbufAt_congr (by rw [hs.idle]) (hs.outbufs a)

theorem Logins.carry (hl : Logins hand p) (hs : SameLogins p p') : Logins hand p' := by
  constructor
  · rw [hs.idle]
    exact hl.idleOnce
  · intro a ha
    rw [hs.idle] at ha
    exact (hs.outbufs a).mpr (hl.idle a ha)
  · intro l hm
    rw [hs.inFlight] at hm
    obtain ⟨d,hd⟩ := hl.flight l hm
    exact ⟨d,(hs.logins l d).mpr hd⟩
  · intro l d a hn hb ho
    obtain ⟨hout,hfor⟩ := hl.output l d a hn ((hs.logins l d).mp hb) ho
    exact ⟨(hs.outbufs a).mpr hout,(hs.acquiredFor a).trans hfor⟩
  · intro l l' d d' hb hb'
    exact hl.distinct l l' d d' ((hs.logins l d).mp hb) ((hs.logins l' d').mp hb')
  · intro l hm d hb
    rw [hs.dbTasks, hs.dbThread] at hm
    exact hl.unanswered l hm d ((hs.logins l d).mp hb)
  · intro l hm d hb
    rw [hs.dbThread] at hm
    exact hl.answered l hm d ((hs.logins l d).mp hb)
  · rw [hs.made, hs.resolved, hs.inFlight]
    exact hl.made
  · rw [hs.made]
    exact hl.madeOnce
  · intro l hm
    rw [hs.made] at hm
    exact (hl.older l hm).trans_le hs.next
  · intro a
    rw [hs.acquired, hs.released, hs.outbufAt]
    exact hl.acquired a

/-- Who holds what besides the connections. -/
theorem SameLogins.holds (hs : SameLogins p p') (hk : ∀ uid, k ≠ .conn uid) :
    Holds hand p' F' k a ↔ Holds hand p F k a := by
  cases k with
  | pool =>
    unfold Holds
    rw [hs.idle]
  | flight =>
    unfold Holds
    rw [hs.inFlight]
  | login l =>
    unfold Holds
    simp only [hs.logins]
  | conn uid => exact absurd rfl (hk uid)

end Frame

/-! ## Changes of one slot -/

section Slots
variable {x : ℕ} {u : Option UInt32} {of : Option Face} {f' g : Face} {j : ℕ}

theorem holds_conn_update {uid : UInt32} :
    Holds hand p (Function.update F i of) (.conn uid) a ↔
      (∃ f, of = some f ∧ f.uid = uid ∧ f.udata = .ptr a) ∨
        ∃ j f, j ≠ i ∧ F j = some f ∧ f.uid = uid ∧ f.udata = .ptr a := by
  constructor
  · rintro ⟨j,f,hf,hu,hd⟩
    by_cases hj : j = i
    · subst hj
      rw [Function.update_self] at hf
      exact .inl ⟨f,hf,hu,hd⟩
    · rw [Function.update_of_ne hj] at hf
      exact .inr ⟨j,f,hj,hf,hu,hd⟩
  · rintro (⟨f,hf,hu,hd⟩ | ⟨j,f,hj,hf,hu,hd⟩)
    · exact ⟨i,f,by rw [Function.update_self]; exact hf,hu,hd⟩
    · exact ⟨j,f,by rw [Function.update_of_ne hj]; exact hf,hu,hd⟩

theorem holds_conn_split {uid : UInt32} (i : ℕ) : Holds hand p F (.conn uid) a ↔
    (∃ f, F i = some f ∧ f.uid = uid ∧ f.udata = .ptr a) ∨
      ∃ j f, j ≠ i ∧ F j = some f ∧ f.uid = uid ∧ f.udata = .ptr a := by
  have hupd : Holds hand p (Function.update F i (F i)) (.conn uid) a ↔ _ := holds_conn_update
  rwa [Function.update_eq_self] at hupd

/-- A connection without a pointer gets one to a block that no connection holds. -/
theorem holds_setPtr {uid : UInt32} (hi : F i = some f) (hno : ∀ b, f.udata ≠ .ptr b)
    (hu : f'.uid = f.uid) (hd : f'.udata = .ptr x)
    (hne : Holds hand p F (.conn uid) a → a ≠ x) :
    Holds hand' p' (Function.update F i (some f')) (.conn uid) a ↔
      a = x ∧ Holder.conn uid = .conn f.uid ∨ a ≠ x ∧ Holds hand p F (.conn uid) a := by
  rw [holds_conn_split i] at hne
  rw [holds_conn_update, holds_conn_split (p := p) (F := F) i]
  simp only [hi, Option.some.injEq, exists_eq_left', hno, and_false, false_or, hu, hd,
    Udata.ptr.injEq, Holder.conn.injEq] at hne ⊢
  constructor
  · rintro (⟨rfl,rfl⟩ | hold)
    · exact .inl ⟨rfl,rfl⟩
    · exact .inr ⟨hne hold,hold⟩
  · rintro (⟨rfl,rfl⟩ | ⟨-,hold⟩)
    · exact .inl ⟨rfl,rfl⟩
    · exact .inr hold

theorem uid_ne (hslot : Slotted F) (hi : F i = some f) (hg : F j = some g) (hj : j ≠ i) :
    g.uid ≠ f.uid := by
  intro he
  refine hj ?_
  rw [← hslot j g hg, ← hslot i f hi, he]

namespace Owned

theorem live (ho : Owned kind hand p F) (hi : F i = some f) (hd : f.udata = .ptr a) : p.Live a :=
  ho.exclusive.live (k := .conn f.uid) ⟨i,f,hi,rfl,hd⟩

theorem ptr_ne (ho : Owned kind hand p F) (hslot : Slotted F) (hi : F i = some f)
    (hd : f.udata = .ptr x) (hg : F j = some g) (hj : j ≠ i) : ∀ a, g.udata = .ptr a → a ≠ x := by
  intro a hga
  have hg' : Holds hand p F (.conn g.uid) a := ⟨j,g,hg,rfl,hga⟩
  have hi' : Holds hand p F (.conn f.uid) x := ⟨i,f,hi,rfl,hd⟩
  exact ho.exclusive.ne hg' hi' (fun he => uid_ne hslot hi hg hj (Holder.conn.inj he))

/-- A connection gives up its pointer. -/
theorem holds_dropPtr (ho : Owned kind hand p F) (hslot : Slotted F) (hi : F i = some f)
    (hd : f.udata = .ptr x) (hno : ∀ g, of = some g → ∀ b, g.udata ≠ .ptr b) {uid : UInt32} :
    Holds hand' p' (Function.update F i of) (.conn uid) a ↔
      a ≠ x ∧ Holds hand p F (.conn uid) a := by
  rw [holds_conn_update, holds_conn_split (p := p) (F := F) i]
  constructor
  · rintro (⟨g,hg,-,hga⟩ | ⟨j,g,hj,hg,hu,hga⟩)
    · exact absurd hga (hno g hg a)
    · exact ⟨ho.ptr_ne hslot hi hd hg hj a hga,.inr ⟨j,g,hj,hg,hu,hga⟩⟩
  · rintro ⟨hne,⟨g,hg,-,hga⟩ | hold⟩
    · rw [hi] at hg
      cases hg
      rw [hd] at hga
      cases hga
      exact absurd rfl hne
    · exact .inr hold

theorem ptr_ne_next (ho : Owned kind hand p F) (hi : F i = some f) :
    ∀ a, f.udata = .ptr a → a ≠ p.heap.next := by
  intro a hd
  obtain ⟨b,hb,_⟩ := ho.live hi hd
  exact Heap.ne_next hb

theorem next_ne_greeting (ho : Owned kind hand p F) : p.heap.next ≠ greetingAt :=
  (Heap.ne_next ho.greeting).symm

/-- A slot changes along with one block, and who holds what is known. -/
theorem change (ho : Owned kind hand p F) (hs : SameLogins p p') (ha : Aside x u p p')
    (hx : x ≠ greetingAt) (hother : ∀ j g, j ≠ i → F j = some g →
      (∀ a, g.udata = .ptr a → a ≠ x) ∧ u ≠ some g.uid)
    (hex : Exclusive p'.Live (Holds hand p' (Function.update F i of)))
    (hface : ∀ f, of = some f → FaceOk kind p' f)
    (hawait : ∀ l d f, hand ≠ .answered l → p.heap.block l = some (.loginInfo d) →
      of = some f → f.uid = d.connection → Awaits kind f)
    (hfor : ∀ f a b, of = some f → f.udata = .ptr a → p'.heap.block a = some (.outbuf b) →
      p.acquiredFor a = some f.uid) : Owned kind hand p' (Function.update F i of) := by
  refine ⟨hs.misused.trans ho.sane,(ha.heap _ hx.symm).trans ho.greeting,hex,
    ho.logins.carry hs,?_,?_,?_⟩
  · intro j g hg
    by_cases hj : j = i
    · subst hj
      rw [Function.update_self] at hg
      exact hface g hg
    · rw [Function.update_of_ne hj] at hg
      obtain ⟨hptr,hu⟩ := hother j g hj hg
      exact (ho.face j g hg).aside ha hptr hx hu
  · intro l d j g hn hb hg hu
    by_cases hj : j = i
    · subst hj
      rw [Function.update_self] at hg
      exact hawait l d g hn ((hs.logins l d).mp hb) hg hu
    · rw [Function.update_of_ne hj] at hg
      exact ho.awaited l d j g hn ((hs.logins l d).mp hb) hg hu
  · intro j g a b hg hd hb
    rw [hs.acquiredFor]
    by_cases hj : j = i
    · subst hj
      rw [Function.update_self] at hg
      exact hfor g a b hg hd hb
    · rw [Function.update_of_ne hj] at hg
      obtain ⟨b',hb'⟩ := (hs.outbufs a).mp ⟨b,hb⟩
      exact ho.acquiredFor j g a b' hg hd hb'

/-- Nobody holds anything else when the slot has the same pointer as before. -/
theorem samePtr (ho : Owned kind hand p F) (hs : SameLogins p p')
    (hlive : ∀ b, p'.Live b ↔ p.Live b)
    (hptr : ∀ uid a, (∃ f, of = some f ∧ f.uid = uid ∧ f.udata = .ptr a) ↔
      ∃ f, F i = some f ∧ f.uid = uid ∧ f.udata = .ptr a) :
    Exclusive p'.Live (Holds hand p' (Function.update F i of)) := by
  refine ho.exclusive.congr hlive (fun k b => ?_)
  cases k with
  | conn uid => rw [holds_conn_update, hptr, ← holds_conn_split]
  | _ => exact hs.holds (fun _ => Holder.noConfusion)

/-- Only the slot changes. -/
theorem setFace (ho : Owned kind hand p F)
    (hptr : ∀ uid a, (∃ f, of = some f ∧ f.uid = uid ∧ f.udata = .ptr a) ↔
      ∃ f, F i = some f ∧ f.uid = uid ∧ f.udata = .ptr a)
    (hface : ∀ f, of = some f → FaceOk kind p f)
    (hawait : ∀ l d f, hand ≠ .answered l → p.heap.block l = some (.loginInfo d) →
      of = some f → f.uid = d.connection → Awaits kind f) :
    Owned kind hand p (Function.update F i of) := by
  refine ho.change (SameLogins.refl p) (.refl p.heap.next none p) ho.next_ne_greeting ?_
    (ho.samePtr (SameLogins.refl p) (fun _ => Iff.rfl) hptr) hface hawait ?_
  · exact fun j g _ hg => ⟨ho.ptr_ne_next hg,nofun⟩
  · intro f a b hf hd hb
    obtain ⟨f₀,hf₀,hu,hd₀⟩ := (hptr f.uid a).mp ⟨f,hf,rfl,hd⟩
    rw [← hu]
    exact ho.acquiredFor i f₀ a b hf₀ hd₀ hb

end Owned

end Slots

end Kaplar.Protocol
