import Kaplar.Protocol.Ownership

/-! # What echo and game connections do

The callbacks of the echo and the game protocol keep everything owned. The logins are not
concerned.
-/
namespace Kaplar.Protocol
open Kaplar.Server
variable {kind : ℕ → Kind} {hand : Hand} {p p' p'' : Shared} {F : ℕ → Option Face}
  {f f' : Face} {i a x : ℕ} {b b' : Block} {h h' : EchoHandle} {u : Option UInt32}

/-! ## Changes of one block -/

theorem SameLogins.trans (hs : SameLogins p p') (hs' : SameLogins p' p'') : SameLogins p p'' where
  logins l d := (hs'.logins l d).trans (hs.logins l d)
  outbufs a := (hs'.outbufs a).trans (hs.outbufs a)
  idle := hs'.idle.trans hs.idle
  dbTasks := hs'.dbTasks.trans hs.dbTasks
  dbThread := hs'.dbThread.trans hs.dbThread
  serverTasks := hs'.serverTasks.trans hs.serverTasks
  next := hs.next.trans hs'.next
  made := hs'.made.trans hs.made
  resolved := hs'.resolved.trans hs.resolved
  acquired := hs'.acquired.trans hs.acquired
  released := hs'.released.trans hs.released
  misused := hs'.misused.trans hs.misused

theorem SameLogins.note (n : Note) : SameLogins p (p.note n) :=
  ⟨fun _ _ => Iff.rfl,fun _ => Iff.rfl,rfl,rfl,rfl,rfl,Nat.le_refl _,rfl,rfl,rfl,rfl,rfl⟩

theorem Aside.note (ha : Aside x u p p') {n : Note}
    (hn : n = .touched x ∨ ∃ uid a bytes, u = some uid ∧ n = .sent uid a bytes) :
    Aside x u p (p'.note n) := by
  obtain ⟨es,hes,hall⟩ := ha.notes
  refine ⟨ha.heap,es ++ [n],?_,?_⟩
  · change p'.record.notes ++ [n] = _
    rw [hes, List.append_assoc]
  · intro m hm
    rcases List.mem_append.mp hm with hm | hm
    · exact hall m hm
    · rwa [List.mem_singleton.mp hm]

theorem block_setBlock (hb : p.heap.block a = some b) :
    (p.setBlock a b').heap.block x = if x = a then some b' else p.heap.block x := by
  by_cases hx : x = a
  · subst hx
    rw [if_pos rfl]
    exact Heap.block_modify_self hb
  · rw [if_neg hx]
    exact Heap.block_modify_of_ne hx

theorem Aside.setBlock : Aside a none p (p.setBlock a b) :=
  ⟨fun _ hx => Heap.block_modify_of_ne hx,[],(List.append_nil _).symm,nofun⟩

/-- A block is changed into one of the same kind. -/
theorem SameLogins.setBlock (hb : p.heap.block a = some b) (hl : ∀ d, b ≠ .loginInfo d)
    (hl' : ∀ d, b' ≠ .loginInfo d) (ho : (∃ o, b' = .outbuf o) ↔ ∃ o, b = .outbuf o) :
    SameLogins p (p.setBlock a b') := by
  refine ⟨?_,?_,rfl,rfl,rfl,rfl,Nat.le_refl _,rfl,rfl,rfl,rfl,rfl⟩
  · intro l d
    rw [block_setBlock hb]
    by_cases hla : l = a
    · subst hla
      simp [hb,hl d,hl' d]
    · rw [if_neg hla]
  · intro x
    simp only [block_setBlock hb]
    by_cases hxa : x = a
    · subst hxa
      simpa [hb] using ho
    · simp only [if_neg hxa]

theorem live_setBlock (hb : p.heap.block a = some b) (hs : ∀ data, b ≠ .static data)
    (hs' : ∀ data, b' ≠ .static data) (x : ℕ) : (p.setBlock a b').Live x ↔ p.Live x := by
  unfold Shared.Live
  rw [block_setBlock hb]
  by_cases hx : x = a
  · subst hx
    simp [hb,hs,hs']
  · rw [if_neg hx]

/-! ## Echo handles -/

section Echo

theorem SameLogins.setEcho (hb : p.heap.block a = some (.echoHandle h)) :
    SameLogins p (p.setBlock a (.echoHandle h')) :=
  .setBlock hb (by simp) (by simp) (by simp)

theorem live_setEcho (hb : p.heap.block a = some (.echoHandle h)) (x : ℕ) :
    (p.setBlock a (.echoHandle h')).Live x ↔ p.Live x := live_setBlock hb (by simp) (by simp) x

namespace Owned

/-- There is no login of a connection that does not wait for one. -/
theorem noLogin (ho : Owned kind hand p F) (hi : F i = some f) (hn : ¬ Awaits kind f) {l : ℕ}
    {d : LoginState} (hh : hand ≠ .answered l) (hb : p.heap.block l = some (.loginInfo d)) :
    f.uid ≠ d.connection :=
  fun hu => hn (ho.awaited l d i f hh hb hi hu)

/-- What an echo connection has. -/
theorem echo (ho : Owned kind hand p F) (hi : F i = some f)
    (hk : f.proto.map kind = some .echo) : ∃ a h, f.udata = .ptr a ∧
      p.heap.block a = some (.echoHandle h) ∧
        (f.busy = true → h.outputReady = false ∧ f.outputData = a ∧ Steady p f) := by
  have hf := ho.face i f hi
  rwa [FaceOk, hk] at hf

theorem not_awaits_echo (hk : f.proto.map kind = some .echo) : ¬ Awaits kind f := by
  rintro ⟨hk',-⟩
  rw [hk] at hk'
  cases hk'

theorem samePointer (hi : F i = some f) (hu : f'.uid = f.uid) (hd : f'.udata = f.udata)
    (uid : UInt32) (a : ℕ) : (∃ g, some f' = some g ∧ g.uid = uid ∧ g.udata = .ptr a) ↔
      ∃ g, F i = some g ∧ g.uid = uid ∧ g.udata = .ptr a := by
  rw [hi]
  simp [hu,hd]

/-- The handle of an echo connection is changed, and its connection with it. -/
theorem changeEcho (ho : Owned kind hand p F) (hslot : Slotted F) (hi : F i = some f)
    (hk : f.proto.map kind = some .echo) (hd : f.udata = .ptr a) (hs : SameLogins p p')
    (ha : Aside a u p p') (hu : ∀ uid, u = some uid → uid = f.uid)
    (hlive : ∀ x, p'.Live x ↔ p.Live x) (hb : p'.heap.block a = some (.echoHandle h'))
    (hf : f'.uid = f.uid ∧ f'.proto = f.proto ∧ f'.udata = f.udata)
    (hbusy : f'.busy = true → h'.outputReady = false ∧ f'.outputData = a ∧ Steady p' f') :
    Owned kind hand p' (Function.update F i (some f')) := by
  obtain ⟨huid,hproto,hudata⟩ := hf
  have hk' : f'.proto.map kind = some .echo := by rw [hproto, hk]
  refine ho.change hs ha ((ho.live hi hd).ne_greeting ho.greeting) ?_
    (ho.samePtr hs hlive (samePointer hi huid hudata)) ?_ ?_ ?_
  · intro j g hj hg
    refine ⟨ho.ptr_ne hslot hi hd hg hj,?_⟩
    intro he
    exact uid_ne hslot hi hg hj (hu _ he)
  · rintro _ ⟨⟩
    rw [FaceOk, hk']
    exact ⟨a,h',by rw [hudata, hd],hb,hbusy⟩
  · rintro l d _ hh hl ⟨⟩ hc
    exact absurd (huid ▸ hc) (ho.noLogin hi (not_awaits_echo hk) hh hl)
  · rintro _ x o ⟨⟩ hx ho'
    rw [hudata, hd] at hx
    cases hx
    rw [hb] at ho'
    cases ho'

theorem live_ne_next (hl : p.Live x) : x ≠ p.heap.next := by
  obtain ⟨b,hb,-⟩ := hl
  exact Heap.ne_next hb

/-- A new handle goes to the connection that has just got its protocol. -/
theorem assignEcho (ho : Owned kind hand p F) (hi : F i = some f) (hf : f.Fresh) {n : ℕ}
    (hn : kind n = .echo) : Owned kind hand { p with heap := p.heap.alloc (.echoHandle h) }
      (Function.update F i (some { f with proto := some n, udata := .ptr p.heap.next })) := by
  obtain ⟨hproto,hfirst,hbusy,svc,hudata⟩ := hf
  let p' : Shared := { p with heap := p.heap.alloc (.echoHandle h) }
  have hblock (x : ℕ) : p'.heap.block x =
      if x = p.heap.next then some (.echoHandle h) else p.heap.block x := Heap.block_alloc
  have hs : SameLogins p p' := by
    refine ⟨?_,?_,rfl,rfl,rfl,rfl,Nat.le_succ _,rfl,rfl,rfl,rfl,rfl⟩
    · intro l d
      rw [hblock]
      by_cases hl : l = p.heap.next
      · subst hl
        simp
      · rw [if_neg hl]
    · intro x
      simp only [hblock]
      by_cases hx : x = p.heap.next
      · subst hx
        simp
      · simp only [if_neg hx]
  have ha : Aside p.heap.next none p p' :=
    ⟨fun _ hx => (hblock _).trans (if_neg hx),[],(List.append_nil _).symm,nofun⟩
  have hlive (x : ℕ) : p'.Live x ↔ x = p.heap.next ∨ p.Live x := by
    unfold Shared.Live
    rw [hblock]
    by_cases hx : x = p.heap.next
    · subst hx
      simp
    · simp [hx]
  have hno : ∀ x, f.udata ≠ .ptr x := by simp [hudata]
  have hholds (k : Holder) (x : ℕ) : Holds hand p' (Function.update F i
      (some { f with proto := some n, udata := .ptr p.heap.next })) k x ↔
        x = p.heap.next ∧ k = .conn f.uid ∨ x ≠ p.heap.next ∧ Holds hand p F k x := by
    have hne : Holds hand p F k x → x ≠ p.heap.next := fun hk => live_ne_next (ho.exclusive.live hk)
    cases k with
    | conn uid => exact holds_setPtr hi hno rfl rfl hne
    | _ =>
      rw [hs.holds (fun _ => Holder.noConfusion) (F := F)]
      simp only [reduceCtorEq, and_false, false_or]
      exact ⟨fun hk => ⟨hne hk,hk⟩,And.right⟩
  refine ho.change hs ha ho.next_ne_greeting (fun j g _ hg => ⟨ho.ptr_ne_next hg,nofun⟩)
    (ho.exclusive.give hlive hholds) ?_ ?_ ?_
  · rintro _ ⟨⟩
    rw [FaceOk, Option.map_some, hn]
    refine ⟨_,h,rfl,(hblock _).trans (if_pos rfl),fun hb => ?_⟩
    rw [hbusy] at hb
    cases hb
  · rintro l d _ hh hl ⟨⟩ hc
    refine absurd hc (ho.noLogin hi ?_ hh hl)
    rintro ⟨hk,-⟩
    rw [hproto] at hk
    cases hk
  · rintro _ x o ⟨⟩ hx ho'
    cases hx
    rw [hblock, if_pos rfl] at ho'
    cases ho'

theorem ne_of_holds (ho : Owned kind hand p F) (hi : F i = some f) (hd : f.udata = .ptr a)
    {k : Holder} (hk : Holds hand p F k x) (hne : k ≠ .conn f.uid) : x ≠ a := by
  have hold : Holds hand p F (.conn f.uid) a := ⟨i,f,hi,rfl,hd⟩
  exact ho.exclusive.ne hk hold hne

theorem conn_not_idle (ho : Owned kind hand p F) (hi : F i = some f) (hd : f.udata = .ptr a) :
    a ∉ p.idle :=
  fun hm => ho.ne_of_holds hi hd (k := .pool) hm Holder.noConfusion rfl

theorem echoAt (ho : Owned kind hand p F) (hi : F i = some f) (hd : f.udata = .ptr a)
    (hb : p.heap.block a = some (.echoHandle h)) : p.echoAt a = some h :=
  echoAt_eq.mpr (block_of_heap (ho.conn_not_idle hi hd) hb)

/-- A handle is freed along with its connection. -/
theorem closeEcho (ho : Owned kind hand p F) (hslot : Slotted F) (hi : F i = some f)
    (hd : f.udata = .ptr a) (hb : p.heap.block a = some (.echoHandle h)) :
    Owned kind hand (p.kplFree a) (Function.update F i none) := by
  have hblock (x : ℕ) : (p.kplFree a).heap.block x = if x = a then none else p.heap.block x :=
    Heap.block_free
  have hs : SameLogins p (p.kplFree a) := by
    refine ⟨?_,?_,rfl,rfl,rfl,rfl,Nat.le_refl _,rfl,rfl,rfl,rfl,rfl⟩
    · intro l d
      rw [hblock]
      by_cases hl : l = a
      · subst hl
        simp [hb]
      · rw [if_neg hl]
    · intro x
      simp only [hblock]
      by_cases hx : x = a
      · subst hx
        simp [hb]
      · simp only [if_neg hx]
  have ha : Aside a none p (p.kplFree a) := by
    refine ⟨fun _ hx => (hblock _).trans (if_neg hx),[.touched a],rfl,?_⟩
    intro n hn
    exact .inl (List.mem_singleton.mp hn)
  have hlive (x : ℕ) : (p.kplFree a).Live x ↔ x ≠ a ∧ p.Live x := by
    unfold Shared.Live
    rw [hblock]
    by_cases hx : x = a <;> simp [hx]
  refine ho.change hs ha ((ho.live hi hd).ne_greeting ho.greeting)
    (fun j g hj hg => ⟨ho.ptr_ne hslot hi hd hg hj,nofun⟩) (ho.exclusive.drop hlive ?_)
    nofun nofun nofun
  intro k x
  cases k with
  | conn uid => exact ho.holds_dropPtr hslot hi hd (fun _ hg => by cases hg)
  | _ =>
    rw [hs.holds (fun _ => Holder.noConfusion) (F := F)]
    exact ⟨fun hk => ⟨ho.ne_of_holds hi hd hk Holder.noConfusion,hk⟩,And.right⟩

end Owned

/-! ## The callbacks -/

variable {n : ℕ} {data : List UInt8}

theorem Leaves.idem {α : Type} {I : Shared → (ℕ → Option Face) → Prop} {of : Option Face} :
    Leaves (α := α) I (Function.update F i of) i = Leaves I F i := by
  funext _ q g
  rw [Leaves, Leaves, Function.update_idem]

theorem Leaves.same {α : Type} {I : Shared → (ℕ → Option Face) → Prop} {y : α} (hi : F i = some f)
    (hI : I p F) : Leaves I F i y p (some f) := by
  rw [Leaves, ← hi, Function.update_eq_self]
  exact hI

namespace Owned

theorem echo_onWrite (ho : Owned kind hand p F) (hslot : Slotted F) (hi : F i = some f)
    (hk : f.proto.map kind = some .echo) :
    (Echo.onWrite f.uid).post (Leaves (Owned kind hand) F i) p (some { f with busy := false }) := by
  obtain ⟨a,h,hd,hb,-⟩ := ho.echo hi hk
  simp only [Echo.onWrite, Script.post, Option.map_some, hd, call]
  rw [Shared.setReady, ho.echoAt hi hd hb]
  exact ho.changeEcho hslot hi hk hd (.setEcho hb) .setBlock (by rintro _ ⟨⟩) (live_setEcho hb)
    ((block_setBlock hb).trans (if_pos rfl)) ⟨rfl,rfl,hd.symm⟩ (by rintro ⟨⟩)

theorem echo_onClose (ho : Owned kind hand p F) (hslot : Slotted F) (hi : F i = some f)
    (hk : f.proto.map kind = some .echo) : (Echo.onClose f.uid).post
      (fun _ q _ => Owned kind hand q (Function.update F i none)) p (some f) := by
  obtain ⟨a,h,hd,hb,-⟩ := ho.echo hi hk
  simp only [Echo.onClose, Script.post, Option.map_some, hd, call]
  rw [Shared.freeHandle, ho.echoAt hi hd hb]
  exact ho.closeEcho hslot hi hd hb

theorem echo_onAssign (ho : Owned kind hand p F) (hi : F i = some f) (hf : f.Fresh)
    (hn : kind n = .echo) : (Echo.onAssignProtocol f.uid).post (Leaves (Owned kind hand) F i) p
      (some { f with proto := some n }) := ho.assignEcho hi hf hn

/-- What was there when a send succeeded is on record. -/
theorem noteSent_eq (hb : p.block a = some b) (uid : UInt32) (len : UInt32) :
    p.noteSent uid a len = p.note (.sent uid a (b.output len)) := by
  rw [Shared.noteSent, hb]

/-- A reply is sent, or it is not; the handle is ready as long as none is on its way. -/
theorem echo_sendReply (ho : Owned kind hand p F) (hslot : Slotted F) (hi : F i = some f)
    (hk : f.proto.map kind = some .echo) (hd : f.udata = .ptr a)
    (hb : p.heap.block a = some (.echoHandle h)) (hbusy : f.busy = false) (len : UInt32) :
    (Echo.sendReply f.uid a len).post (Leaves (Owned kind hand) F i) p (some f) := by
  have hat := ho.echoAt hi hd hb
  simp only [Echo.sendReply, sendOutput, Script.post, hbusy, Bool.false_eq_true, if_false]
  intro ok
  cases ok with
  | false =>
    exact ho.changeEcho hslot hi hk hd (.refl p) (.refl a none p) (by rintro _ ⟨⟩) (fun _ => Iff.rfl)
      hb ⟨rfl,rfl,rfl⟩ (by rintro ⟨⟩)
  | true =>
    let p₁ := p.note (.sent f.uid a ((Block.echoHandle h).output len))
    let p₂ := p₁.setBlock a (.echoHandle { h with outputReady := false })
    have hat₁ : p₁.echoAt a = some h := hat
    have hsent : (p.noteSent f.uid a len).setReady a false = p₂ := by
      rw [noteSent_eq (echoAt_eq.mp hat), Shared.setReady, hat₁]
    have hb₂ : p₂.heap.block a = some (.echoHandle { h with outputReady := false }) :=
      (block_setBlock (p := p₁) hb).trans (if_pos rfl)
    have ha₂ : Aside a (some f.uid) p p₂ :=
      ⟨fun _ hx => Heap.block_modify_of_ne hx,[_],rfl,
        fun n hn => .inr ⟨_,_,_,rfl,List.mem_singleton.mp hn⟩⟩
    simp only [call, Script.post, if_true]
    rw [hsent]
    refine ho.changeEcho hslot hi hk hd ((SameLogins.note _).trans (.setEcho hb)) ha₂
      (fun _ he => (Option.some.inj he).symm) (live_setEcho (p := p₁) hb) hb₂ ⟨rfl,rfl,rfl⟩
      (fun _ => ⟨rfl,rfl,_,p.record.notes,[],hb₂,rfl,by rintro _ ⟨⟩⟩)

theorem echo_onRecvMessage (ho : Owned kind hand p F) (hslot : Slotted F) (hi : F i = some f)
    (hk : f.proto.map kind = some .echo) : (Echo.onRecvMessage f.uid data).post
      (Leaves (Owned kind hand) F i) p (some f) := by
  obtain ⟨a,h,hd,hb,hbusy⟩ := ho.echo hi hk
  have hat := ho.echoAt hi hd hb
  simp only [Echo.onRecvMessage, Script.post, Option.map_some, hd, hat]
  cases hready : h.outputReady with
  | false => exact Leaves.same hi ho
  | true =>
    have hidle : f.busy = false := by
      by_contra hb'
      rw [(hbusy (Bool.not_eq_false _ ▸ hb')).1] at hready
      cases hready
    simp only [if_true]
    cases Echo.reply data ⟨fun _ => echoBufferSize,fun _ => h.outputBuffer⟩ with
    | none => trivial
    | some r =>
      obtain ⟨len,m⟩ := r
      let p₁ := (p.setBlock a (.echoHandle ⟨true,m.bytes ()⟩)).note (.touched a)
      have hb₁ : p₁.heap.block a = some (.echoHandle ⟨true,m.bytes ()⟩) :=
        (block_setBlock hb).trans (if_pos rfl)
      have ho₁ : Owned kind hand p₁ (Function.update F i (some f)) :=
        ho.changeEcho hslot hi hk hd ((SameLogins.setEcho hb).trans (.note _))
          (Aside.setBlock.note (.inl rfl)) (by rintro _ ⟨⟩) (live_setEcho hb) hb₁ ⟨rfl,rfl,rfl⟩
          (fun hb' => by rw [hidle] at hb'; cases hb')
      rw [← hi, Function.update_eq_self] at ho₁
      exact ho₁.echo_sendReply hslot hi hk hd hb₁ hidle _

end Owned

end Echo

/-! ## Any protocol -/

namespace Owned

theorem faceOk_marked (hf : FaceOk kind p f) : FaceOk kind p { f with firstMsg := true } := by
  unfold FaceOk at hf ⊢
  cases hk : f.proto.map kind with
  | none => rwa [hk] at hf
  | some k =>
    rw [hk] at hf
    cases k with
    | login => exact ⟨hf.1,nofun,hf.2.2⟩
    | _ => exact hf

/-- The manager marks a connection that gets its first message. -/
theorem marked (ho : Owned kind hand p F) (hi : F i = some f) :
    Owned kind hand p (Function.update F i (some { f with firstMsg := true })) := by
  refine ho.setFace (samePointer hi rfl rfl) ?_ ?_
  · rintro _ ⟨⟩
    exact faceOk_marked (ho.face i f hi)
  · rintro l d _ hh hl ⟨⟩ hu
    obtain ⟨hk,-,hd⟩ := ho.awaited l d i f hh hl hi hu
    exact ⟨hk,rfl,hd⟩

/-- A connection without a block of its own goes. -/
theorem dropped (ho : Owned kind hand p F) (hi : F i = some f) (hno : ∀ a, f.udata ≠ .ptr a) :
    Owned kind hand p (Function.update F i none) := by
  refine ho.setFace ?_ nofun nofun
  intro uid a
  rw [hi]
  simp [hno]

/-- A connection without a block of its own gets a protocol that needs none. -/
theorem assigned (ho : Owned kind hand p F) (hi : F i = some f) (hf : f.Fresh) {n : ℕ}
    (hn : kind n ≠ .echo) :
    Owned kind hand p (Function.update F i (some { f with proto := some n, udata := .null })) := by
  obtain ⟨hproto,hfirst,hbusy,svc,hudata⟩ := hf
  refine ho.setFace ?_ ?_ ?_
  · intro uid a
    rw [hi]
    simp [hudata]
  · rintro _ ⟨⟩
    rw [FaceOk, Option.map_some]
    cases hk : kind n with
    | echo => exact absurd hk hn
    | login => exact ⟨.inl rfl,fun _ => rfl,fun hb => by rw [hbusy] at hb; cases hb⟩
    | game => exact ⟨rfl,fun hb => by rw [hbusy] at hb; cases hb⟩
  · rintro l d _ hh hl ⟨⟩ hc
    refine absurd hc (ho.noLogin hi ?_ hh hl)
    rintro ⟨hk,-⟩
    rw [hproto] at hk
    cases hk

/-- A connection that has its block sends from it, or stops sending. -/
theorem changeSend (ho : Owned kind hand p F) (hslot : Slotted F) (hi : F i = some f)
    (hn : ¬ Awaits kind f) (hs : SameLogins p p') (ha : Aside p.heap.next u p p')
    (hu : ∀ uid, u = some uid → uid = f.uid) (hheap : p'.heap = p.heap) (huid : f'.uid = f.uid)
    (hudata : f'.udata = f.udata) (hface : FaceOk kind p' f') :
    Owned kind hand p' (Function.update F i (some f')) := by
  have hlive (x : ℕ) : p'.Live x ↔ p.Live x := by rw [Shared.Live, Shared.Live, hheap]
  refine ho.change hs ha ho.next_ne_greeting ?_ (ho.samePtr hs hlive (samePointer hi huid hudata))
    ?_ ?_ ?_
  · intro j g hj hg
    refine ⟨ho.ptr_ne_next hg,?_⟩
    intro he
    exact uid_ne hslot hi hg hj (hu _ he)
  · rintro _ ⟨⟩
    exact hface
  · rintro l d _ hh hl ⟨⟩ hc
    exact absurd (huid ▸ hc) (ho.noLogin hi hn hh hl)
  · rintro _ x o ⟨⟩ hx ho'
    rw [hheap] at ho'
    rw [huid]
    exact ho.acquiredFor i f x o hi (hudata ▸ hx) ho'

/-! ## Game connections -/

theorem game (ho : Owned kind hand p F) (hi : F i = some f)
    (hk : f.proto.map kind = some .game) :
    f.udata = .null ∧ (f.busy = true → f.outputData = greetingAt ∧ Steady p f) := by
  have hf := ho.face i f hi
  rwa [FaceOk, hk] at hf

theorem not_awaits_game (hk : f.proto.map kind = some .game) : ¬ Awaits kind f := by
  rintro ⟨hk',-⟩
  rw [hk] at hk'
  cases hk'

theorem changeGame (ho : Owned kind hand p F) (hslot : Slotted F) (hi : F i = some f)
    (hk : f.proto.map kind = some .game) (hs : SameLogins p p') (ha : Aside p.heap.next u p p')
    (hu : ∀ uid, u = some uid → uid = f.uid) (hheap : p'.heap = p.heap)
    (hf : f'.uid = f.uid ∧ f'.proto = f.proto ∧ f'.udata = f.udata)
    (hbusy : f'.busy = true → f'.outputData = greetingAt ∧ Steady p' f') :
    Owned kind hand p' (Function.update F i (some f')) := by
  obtain ⟨huid,hproto,hudata⟩ := hf
  refine ho.changeSend hslot hi (not_awaits_game hk) hs ha hu hheap huid hudata ?_
  rw [FaceOk, hproto, hk]
  exact ⟨hudata.trans (ho.game hi hk).1,hbusy⟩

theorem greeting_block (ho : Owned kind hand p F) :
    p.block greetingAt = some (.static Protocol.greeting) := by
  refine block_of_heap (fun hm => ?_) ho.greeting
  obtain ⟨o,hb⟩ := ho.logins.idle _ hm
  rw [ho.greeting] at hb
  cases hb

theorem game_onConnect (ho : Owned kind hand p F) (hslot : Slotted F) (hi : F i = some f)
    (hk : f.proto.map kind = some .game) :
    (Game.onConnect f.uid).post (Leaves (Owned kind hand) F i) p (some f) := by
  simp only [Game.onConnect, sendOutput, Script.post]
  cases hbusy : f.busy with
  | true => exact Leaves.same (y := Status.ok) hi ho
  | false =>
    simp only [Bool.false_eq_true, if_false]
    intro ok
    cases ok with
    | false =>
      exact ho.changeGame hslot hi hk (.refl p) (.refl _ none p) (by rintro _ ⟨⟩) rfl
        ⟨rfl,rfl,rfl⟩ (by rintro ⟨⟩)
    | true =>
      simp only [call, Script.post, if_true]
      rw [noteSent_eq ho.greeting_block]
      refine ho.changeGame (u := some f.uid) hslot hi hk (.note _) ⟨fun _ _ => rfl,[_],rfl,?_⟩ ?_
        rfl ⟨rfl,rfl,rfl⟩ ?_
      · exact fun n hn => .inr ⟨_,_,_,rfl,List.mem_singleton.mp hn⟩
      · exact fun _ he => (Option.some.inj he).symm
      · exact fun _ => ⟨rfl,_,p.record.notes,[],ho.greeting,rfl,by rintro _ ⟨⟩⟩

theorem game_written (ho : Owned kind hand p F) (hslot : Slotted F) (hi : F i = some f)
    (hk : f.proto.map kind = some .game) :
    Owned kind hand p (Function.update F i (some { f with busy := false })) :=
  ho.changeGame hslot hi hk (.refl p) (.refl _ none p) nofun rfl ⟨rfl,rfl,rfl⟩ nofun

end Owned

end Kaplar.Protocol
