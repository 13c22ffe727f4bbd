import Kaplar.Protocol.Answers
import Kaplar.Server.ConnHeard

/-! # Answers go to whoever has asked

The output buffer of a login belongs to this login alone, so what the database thread
writes there is what its connection is told. This holds in every run, whichever logins,
messages and closed connections come in between.
-/
namespace Kaplar.Protocol
open Kaplar.Crypto Kaplar.Output Kaplar.Server
variable {kind : ℕ → Kind} {hand : Hand} {E : Setting} {D : Deployment}
  {H : UInt32 → Callback → Prop} {p q : Shared} {F : ℕ → Option Face} {f : Face} {i a l n : ℕ}
  {d : LoginState}

/-! ## A login gets its output buffer -/

section Acquire

theorem acquireOutput_self (hat : p.loginAt l = some d) : ∃ a,
    (p.acquireOutput l).heap.block l = some (.loginInfo { d with output := some a }) := by
  have hb := (heap_of_block (loginAt_eq.mp hat)).2
  refine ⟨(p.outbufAcquire d.connection).1,?_⟩
  rw [Shared.acquireOutput, hat]
  have hb' : (p.outbufAcquire d.connection).2.heap.block l = some (.loginInfo d) := by
    unfold Shared.outbufAcquire
    split
    · exact hb
    · exact (Heap.block_alloc_of_ne (Heap.ne_next hb)).trans hb
  exact (block_setBlock hb').trans (if_pos rfl)

theorem acquireOutput_block {x : ℕ} (hl : x ≠ l) (hx : x ≠ p.heap.next) :
    (p.acquireOutput l).heap.block x = p.heap.block x := by
  unfold Shared.acquireOutput
  split
  · refine (Heap.block_modify_of_ne hl).trans ?_
    unfold Shared.outbufAcquire
    split
    · rfl
    · exact Heap.block_alloc_of_ne hx
  · rfl

theorem acquireOutput_queues (hat : p.loginAt l = some d) : SameQueues p (p.acquireOutput l) ∧
    (p.acquireOutput l).record.notes = p.record.notes := by
  rw [Shared.acquireOutput, hat]
  dsimp only
  unfold Shared.outbufAcquire
  split <;> exact ⟨⟨rfl,rfl,rfl,rfl⟩,rfl⟩

theorem SameQueues.waiting (hs : SameQueues p q) : q.waiting = p.waiting := by
  rw [Shared.waiting, Shared.waiting, hs.dbTasks, hs.dbThread]

theorem SameQueues.answers (hs : SameQueues p q) : q.answers = p.answers := by
  rw [Shared.answers, Shared.answers, hs.dbThread, hs.serverTasks]

end Acquire

namespace Owned

/-- A login in flight is somewhere in the heap, with its output buffer. -/
theorem in_flight (ho : Owned kind hand p F) (hl : l ∈ p.inFlight) :
    ∃ d, p.heap.block l = some (.loginInfo d) := ho.logins.flight l (List.mem_append_right _ hl)

theorem told_acquire (ho : Owned kind hand p F) (hh : ∀ l, hand ≠ .answered l) (ht : Told E D H p)
    (hat : p.loginAt l = some d) (hl : l ∉ p.answers) : Told E D H (p.acquireOutput l) := by
  obtain ⟨hs,hnotes⟩ := acquireOutput_queues hat
  obtain ⟨a,hself⟩ := acquireOutput_self hat
  have hb := (heap_of_block (loginAt_eq.mp hat)).2
  refine ⟨?_,?_,?_⟩
  · intro l' hm e he
    rw [hs.waiting] at hm
    obtain ⟨e',he'⟩ := ho.in_flight (mem_inFlight_of_waiting hm)
    by_cases hne : l' = l
    · subst hne
      rw [hself] at he
      cases he
      exact ht.asked l' hm d hb
    · rw [acquireOutput_block hne (Heap.ne_next he')] at he
      exact ht.asked l' hm e he
  · intro l' hm e x o he hx hbx
    rw [hs.answers] at hm
    obtain ⟨e',he'⟩ := ho.in_flight (mem_inFlight_of_answers hm)
    have hne : l' ≠ l := fun heq => hl (heq ▸ hm)
    rw [acquireOutput_block hne (Heap.ne_next he')] at he
    obtain ⟨⟨o',ho'⟩,-⟩ := ho.logins.output l' e x (hh l') he hx
    have hxl : x ≠ l := by
      rintro rfl
      rw [hb] at ho'
      cases ho'
    rw [acquireOutput_block hxl (Heap.ne_next ho')] at hbx
    exact ht.answered l' hm e x o he hx hbx
  · intro uid x bytes hm
    rw [hnotes] at hm
    exact ht.said uid x bytes hm

/-- What is written for a login is in its output buffer, and in no other. -/
theorem told_write (ho : Owned kind hand p F) (hh : ∀ l, hand ≠ .answered l) (ht : Told E D H p)
    (hb : p.heap.block l = some (.loginInfo d)) (hd : d.output = some a) (hl : l ∉ p.answers)
    {ptrSize : ℕ} {build : LoginState → MemM Unit ℕ}
    (hs : ∀ m ptr m', m.size () = maxOutbufLen ptrSize → build d m = some (ptr,m') →
      Said E D H d.connection ((Block.outbuf ⟨ptr,m'.bytes ()⟩).output (UInt32.ofNat ptr)))
    (hw : p.writeOutput ptrSize l build = some q) : Told E D H q ∧ Answered E D H q l := by
  obtain ⟨o,hof,hout⟩ := ho.outputOf (hh l) hb hd
  obtain ⟨-,hsame⟩ := ho.writeOutput (hh l) hb hd hw
  have hlogin := (hsame.logins l d).mpr hb
  rw [Shared.writeOutput, hof] at hw
  dsimp only at hw
  split at hw
  · cases hw
  · rename_i ptr m hbuild
    cases hw
    have hblock {x : ℕ} : (p.setBlock a (.outbuf ⟨ptr,m.bytes ()⟩)).heap.block x = _ :=
      block_setBlock hout
    have hsaid := hs _ ptr m rfl hbuild
    refine ⟨⟨?_,?_,?_⟩,?_⟩
    · exact fun l' hm e he => ht.asked l' hm e ((hsame.logins l' e).mp he)
    · intro l' hm e x o' he hx hbx
      have he' := (hsame.logins l' e).mp he
      have hne : x ≠ a := by
        have hk : Holds hand p F (.login l') x := ⟨hh l',e,he',hx⟩
        have hk' : Holds hand p F (.login l) a := ⟨hh l,d,hb,hd⟩
        refine ho.exclusive.ne hk hk' (fun heq => hl ?_)
        cases heq
        exact hm
      have hbx' := hblock.symm.trans hbx
      rw [if_neg hne] at hbx'
      exact ht.answered l' hm e x o' he' hx hbx'
    · intro uid x bytes hm
      rcases List.mem_append.mp hm with hm | hm
      · exact ht.said uid x bytes hm
      · cases List.mem_singleton.mp hm
    · intro e x o' he hx hbx
      rw [hlogin] at he
      cases he
      rw [hd] at hx
      cases hx
      have hbx' := hblock.symm.trans hbx
      rw [if_pos rfl] at hbx'
      cases hbx'
      exact hsaid

end Owned

/-! ## The first message -/

section FirstMessage

/-- A new login is added behind all others. -/
theorem Owned.told_add (ho : Owned kind hand p F) (ht : Told E D H p) (ha : Added d p q) :
    Told E D H q := by
  have hnew {l : ℕ} (hl : l ∈ p.inFlight) : l ≠ p.heap.next := by
    obtain ⟨e,he⟩ := ho.in_flight hl
    exact Heap.ne_next he
  refine ⟨?_,?_,?_⟩
  · intro l hl e he
    rw [ha.waiting] at hl
    rw [ha.block l (hnew (mem_inFlight_of_waiting hl))] at he
    exact ht.asked l hl e he
  · intro l hl e x o he hx hbx
    rw [ha.answers] at hl
    rw [ha.block l (hnew (mem_inFlight_of_answers hl))] at he
    rw [ha.block x ?_] at hbx
    · exact ht.answered l hl e x o he hx hbx
    · rintro rfl
      rw [ha.self] at hbx
      cases hbx
  · intro uid x bytes hm
    rw [ha.notes] at hm
    exact ht.said uid x bytes hm

theorem Owned.told_sendDisconnect (ho : Owned kind (.login l) p F) (ht : Told E D H p)
    (hb : p.heap.block l = some (.loginInfo d)) (hd : d.output = none) {message : String}
    {m : Memory Region} (hs : Takes E H d.connection (.disconnect d.toLoginInfo message) m)
    {of : Option Face} {st : Status} : (Login.internalSendDisconnect E l message (.ret st)).post
      (fun _ q _ => Told E D H q) p of := by
  have hh (l' : ℕ) : Hand.login l ≠ .answered l' := Hand.noConfusion
  have hl : l ∉ p.answers := by
    intro hm
    exact (List.nodup_cons.mp (inFlight_nodup ho.logins)).1 (mem_inFlight_of_answers hm)
  have hat := ho.loginAt hb
  obtain ⟨a,hself⟩ := acquireOutput_self hat
  have ho₁ := ho.acquireOutput hb hd
  have ht₁ := ho.told_acquire hh ht hat hl
  rw [← (acquireOutput_queues hat).1.answers] at hl
  simp only [Login.internalSendDisconnect, Script.post]
  split
  · trivial
  · rename_i q hw
    have hsaid (m' : Memory Unit) (ptr : ℕ) (m'' : Memory Unit)
        (hsize : m'.size () = maxOutbufLen E.ptrSize)
        (hbuild : Login.buildDisconnectMessage () message d.xtea m' = some (ptr,m'')) :
        Said E D H d.connection ((Block.outbuf ⟨ptr,m''.bytes ()⟩).output (UInt32.ofNat ptr)) :=
      .refused hs (disconnect_carries hsize hbuild)
    obtain ⟨ht₂,hanswered⟩ := ho₁.told_write hh ht₁ hself rfl hl hsaid hw
    exact told_resolve ht₂ hanswered (fun _ _ hq => hq)

theorem Owned.told_onFirstMessage (ho : Owned kind .empty p F) (hslot : Slotted F)
    (hi : F i = some f) (hk : f.proto.map kind = some .login) (hfirst : f.firstMsg = false)
    (ht : Told E D H p) {data : List UInt8} (hheard : H f.uid (.recvFirst data)) {of : Option Face} :
    (Login.onFirstMessage E f.uid data).post (fun _ q _ => Told E D H q) p of := by
  have hnull := (ho.login_face hi hk).2.1 hfirst
  have hno : ∀ l d, p.heap.block l = some (.loginInfo d) → d.connection ≠ f.uid := by
    refine fun l d hb hu => ho.noLogin hi ?_ Hand.noConfusion hb hu.symm
    rintro ⟨-,hf,-⟩
    rw [hfirst] at hf
    cases hf
  simp only [Login.onFirstMessage, Script.post]
  split
  · trivial
  · exact ht
  · rename_i login message m hr
    have ha := added_addLogin (p := p) login m
    have hu := Login.onRecvFirstMessage_isFor hr
    have ho₁ := (ho.marked hi).addLogin (hslot.set hi rfl) (Function.update_self ..) ⟨hk,rfl,hnull⟩
      ha hu (by rw [show login.connection = f.uid from hu]; exact hno)
    refine ho₁.told_sendDisconnect (ho.told_add ht ha) ha.self rfl (m := m) ?_
    rw [show login.connection = f.uid from hu]
    exact ⟨_,data,hheard,hr⟩
  · rename_i login m hr
    have ha := added_addLogin (p := p) login m
    have hu : login.connection = f.uid := Login.onRecvFirstMessage_isFor hr
    refine (ho.told_add ht ha).requeue rfl rfl ?_ (fun _ hl => .inl hl)
    intro l hl
    have hwait : l ∈ p.waiting ∨ l = p.heap.next := by
      simp only [Shared.waiting, Shared.addLogin, List.mem_append, List.mem_singleton] at hl ⊢
      rcases hl with (hl | rfl) | hl
      · exact .inl (.inl hl)
      · exact .inr rfl
      · exact .inl (.inr hl)
    rcases hwait with hl | rfl
    · exact .inl hl
    · refine .inr (fun e he => ?_)
      rw [ha.self] at he
      cases he
      refine ⟨m,?_,rfl,rfl⟩
      rw [show login.connection = f.uid from hu]
      exact ⟨_,data,hheard,hr⟩

end FirstMessage

/-! ## The database thread -/

/-- The login the database thread works for is not among the answers. -/
theorem Owned.thread_not_answered (ho : Owned kind hand p F)
    (ht : p.dbThread = .resolving l ∨ p.dbThread = .writing l) : l ∈ p.inFlight ∧ l ∉ p.answers := by
  have honce : p.inFlight.Nodup := (List.nodup_append.mp (inFlight_nodup ho.logins)).2.1
  have hlogins : p.dbThread.logins = [l] := by
    rcases ht with ht | ht <;> rw [ht, DbThread.logins]
  have hanswers : p.dbThread.answers = [] := by
    rcases ht with ht | ht <;> simp only [ht, DbThread.answers]
  rw [Shared.inFlight, hlogins] at honce ⊢
  refine ⟨by simp,fun hm => ?_⟩
  rw [Shared.answers, hanswers, List.nil_append] at hm
  exact (List.nodup_append.mp honce).2.2 l (by simp) l hm rfl

theorem Owned.told_dbStep (ho : Owned kind .empty p F) (ht : Told E D H p)
    (hs : Login.DbStep E p q) : Told E D H q := by
  have hnone (l : ℕ) : Hand.empty ≠ .answered l := Hand.noConfusion
  cases hs with
  | @take l hidle hm =>
    refine ht.requeue rfl rfl (fun l' hl => .inl ?_) (fun l' hl => .inl ?_)
    · simp only [Shared.waiting, DbThread.waiting, List.mem_append, List.mem_singleton] at hl ⊢
      rcases hl with hl | rfl
      · exact .inl (List.mem_of_mem_erase hl)
      · exact .inl hm
    · simp only [Shared.answers, hidle] at hl ⊢
      exact hl
  | @acquire l hthread =>
    obtain ⟨hflight,hl⟩ := ho.thread_not_answered (.inl hthread)
    obtain ⟨d,hb⟩ := ho.in_flight hflight
    have hat := ho.loginAt hb
    obtain ⟨hq,-⟩ := acquireOutput_queues hat
    refine (ho.told_acquire hnone ht hat hl).requeue rfl rfl (fun l' hl' => .inl ?_)
      (fun l' hl' => .inl ?_)
    · rw [Shared.waiting, hq.dbThread, hthread]
      exact hl'
    · rw [Shared.answers, hq.dbThread, hthread]
      exact hl'
  | @write q l db hthread hw =>
    obtain ⟨hflight,hl⟩ := ho.thread_not_answered (.inr hthread)
    obtain ⟨d,hb⟩ := ho.in_flight hflight
    obtain ⟨a,ha⟩ := Option.ne_none_iff_exists'.mp (ho.logins.answered l hthread d hb)
    obtain ⟨m,htakes,hacc,hpass⟩ := ht.asked l (by simp [Shared.waiting,hthread,DbThread.waiting]) d hb
    obtain ⟨-,hsame⟩ := ho.writeOutput (hnone l) hb ha hw
    obtain ⟨hq,hanswered⟩ := ho.told_write hnone ht hb ha hl (fun m' ptr m'' hsize hbuild => by
      rw [hacc, hpass] at hbuild
      exact .resolved db htakes (resolve_carries hsize hbuild)) hw
    refine hq.requeue rfl rfl (fun l' hl' => .inl ?_) (fun l' hl' => ?_)
    · simp only [Shared.waiting, DbThread.waiting, List.append_nil, List.mem_append] at hl' ⊢
      exact .inl hl'
    · simp only [Shared.answers, DbThread.answers, List.singleton_append, List.mem_cons] at hl'
      rcases hl' with rfl | hl'
      · exact .inr hanswered
      · exact .inl (List.mem_append_right _ hl')
  | @send l hthread =>
    refine ht.requeue rfl rfl (fun l' hl => .inl ?_) (fun l' hl => .inl ?_)
    · simp only [Shared.waiting, DbThread.waiting, List.append_nil, List.mem_append] at hl ⊢
      exact .inl hl
    · simp only [Shared.answers, hthread, DbThread.answers, List.nil_append, List.mem_append] at hl ⊢
      exact hl.symm

/-! ## All protocols together -/

section Callbacks
variable {of : Option Face} {st : Status} {data : List UInt8}

theorem told_onAssign (ht : Told E D H p) (k : Kind) (c : UInt32) :
    ((k.protocol E).onAssignProtocol c).post (fun _ q _ => Told E D H q) p of := by
  cases k with
  | echo => exact ht.fades .allocEcho
  | _ => exact ht

theorem told_onClose (ht : Told E D H p) (k : Kind) (c : UInt32) :
    ((k.protocol E).onClose c).post (fun _ q _ => Told E D H q) p of := by
  cases k with
  | echo =>
    simp only [Kind.protocol, protocolEcho, Echo.onClose, Script.post]
    split
    · exact ht.fades .freeHandle
    · exact ht.fades .misuse
  | login =>
    simp only [Kind.protocol, protocolLogin, Login.onClose, Script.post]
    split
    · exact ht.fades .outbufRelease
    · exact ht
    · exact ht.fades .misuse
  | game => exact ht

theorem told_onWrite (ht : Told E D H p) (k : Kind) (c : UInt32) :
    ((k.protocol E).onWrite c).post (fun _ q _ => Told E D H q) p of := by
  cases k with
  | echo =>
    simp only [Kind.protocol, protocolEcho, Echo.onWrite, Script.post]
    split
    · exact ht.fades .setReady
    · exact ht.fades .misuse
  | login =>
    simp only [Kind.protocol, protocolLogin, Login.onWrite, Script.post]
    split
    · exact ht.fades .outbufRelease
    · exact ht.fades .misuse
  | game => exact ht

/-- An echo connection is told what it has said. -/
theorem told_echo (ht : Told E D H p) {c : UInt32} (hs : Said E D H c (echoed data)) :
    (Echo.onRecvMessage c data).post (fun _ q _ => Told E D H q) p of := by
  simp only [Echo.onRecvMessage, Script.post]
  split
  · rename_i a _
    simp only [Script.post]
    split
    · rename_i h hat
      obtain ⟨hidle,hb⟩ := heap_of_block (echoAt_eq.mp hat)
      split
      · split
        · rename_i len m hreply
          let p₁ := (p.setBlock a (.echoHandle ⟨h.outputReady,m.bytes ()⟩)).note (.touched a)
          have hb₁ : p₁.block a = some (.echoHandle ⟨h.outputReady,m.bytes ()⟩) :=
            block_of_heap hidle ((block_setBlock hb).trans (if_pos rfl))
          refine post_sendOutput (ht.fades (Fades.setEcho.trans .touched)) ?_ ?_
          · intro b hb'
            rw [hb₁] at hb'
            cases hb'
            rw [reply_output rfl hreply]
            exact hs
          · intro ok q f hq
            cases ok with
            | true => exact hq.fades .setReady
            | false => exact hq
        · trivial
      · exact ht
    · exact ht.fades .misuse
  · exact ht.fades .misuse

theorem Owned.told_onConnect (ho : Owned kind hand p F) (ht : Told E D H p) (n : ℕ) (c : UInt32) :
    (((D.kind n).protocol E).onConnect c).post (fun _ q _ => Told E D H q) p of := by
  cases hk : D.kind n with
  | game =>
    refine post_sendOutput (k := fun _ => .ret Status.ok) ht ?_ (fun _ _ _ hq => hq)
    intro b hb
    rw [ho.greeting_block] at hb
    cases hb
    exact .greeting hk
  | _ => trivial

theorem told_onRecvMessage (ht : Told E D H p) (n : ℕ) {c : UInt32} (hheard : H c (.recv data)) :
    (((D.kind n).protocol E).onRecvMessage c data).post (fun _ q _ => Told E D H q) p of := by
  cases hk : D.kind n with
  | echo => exact told_echo ht (.echo hk (.inl hheard))
  | _ => exact ht

theorem Owned.told_onRecvFirstMessage (ho : Owned D.kind .empty p F) (hslot : Slotted F)
    (hi : F i = some f) (hp : f.proto = some n) (hfirst : f.firstMsg = false) (ht : Told E D H p)
    (hheard : H f.uid (.recvFirst data)) :
    (((D.kind n).protocol E).onRecvFirstMessage f.uid data).post (fun _ q _ => Told E D H q) p
      of := by
  cases hk : D.kind n with
  | echo => exact told_echo ht (.echo hk (.inr ⟨data,hheard,rfl⟩))
  | login =>
    exact ho.told_onFirstMessage hslot hi (by rw [hp, Option.map_some, hk]) hfirst ht hheard
  | game =>
    show (Game.onFirstMessage E f.uid data).post _ _ _
    unfold Game.onFirstMessage
    split
    · trivial
    · exact ht

theorem told_runServerTask (ht : Told E D H p) (hl : l ∈ p.serverTasks) :
    (Login.runServerTask l).post (fun _ q _ => Told E D H q) p of := by
  have hanswer := ht.answered l (List.mem_append_right _ hl)
  have hq : Told E D H { p with serverTasks := p.serverTasks.erase l } := by
    refine ht.requeue rfl rfl (fun _ hl' => .inl hl') (fun l' hl' => .inl ?_)
    simp only [Shared.answers, List.mem_append] at hl' ⊢
    exact hl'.imp_right List.mem_of_mem_erase
  exact told_resolve hq hanswer (fun _ _ hq => hq)

end Callbacks

/-- With everything owned, nobody is told what is not meant for him. -/
def Meant (E : Setting) (D : Deployment) (H : UInt32 → Callback → Prop) (p : Shared)
    (F : ℕ → Option Face) : Prop := Owned D.kind .empty p F ∧ Told E D H p

section Upholds

/-- Protocols that hear some messages tell nobody what is not meant for him. -/
theorem upholds_meant (E : Setting) (D : Deployment) (H : UInt32 → Callback → Prop) :
    Upholds ((services E D).hearing H) (Login.usage E) (Meant E D H) where
  opened hs hI hi hf hu hb := ⟨(upholds E D).opened hs hI.1 hi hf hu hb,hI.2⟩
  dropped hs hI hi hp := ⟨(upholds E D).dropped hs hI.1 hi hp,hI.2⟩
  assign n hs hI hi hf :=
    Script.post_and ((upholds E D).assign n hs hI.1 hi hf) (told_onAssign hI.2 (D.kind n) _)
  close {q F i n f} hs hI hi hp :=
    Script.post_and ((upholds E D).close hs hI.1 hi hp) (told_onClose hI.2 (D.kind n) _)
  connect {q F i n f} hs hI hi hp :=
    Script.post_and ((upholds E D).connect hs hI.1 hi hp) (hI.1.told_onConnect hI.2 n _)
  write {q F i n f} hs hI hi hp hb :=
    Script.post_and ((upholds E D).write hs hI.1 hi hp hb) (told_onWrite hI.2 (D.kind n) _)
  recv {q F i n f} data hs hI hi hp := by
    by_cases hk : H f.uid (.recv data)
    · have heq : (((services E D).hearing H).protocol n).onRecvMessage f.uid data = _ := if_pos hk
      rw [heq]
      exact Script.post_and ((upholds E D).recv data hs hI.1 hi hp)
        (told_onRecvMessage hI.2 n hk)
    · have heq : (((services E D).hearing H).protocol n).onRecvMessage f.uid data = _ := if_neg hk
      rw [heq]
      trivial
  recvFirst {q F i n f} data hs hI hi hp hfirst := by
    by_cases hk : H f.uid (.recvFirst data)
    · have heq : (((services E D).hearing H).protocol n).onRecvFirstMessage f.uid data = _ :=
        if_pos hk
      rw [heq]
      exact Script.post_and ((upholds E D).recvFirst data hs hI.1 hi hp hfirst)
        (hI.1.told_onRecvFirstMessage hs hi hp hfirst hI.2 hk)
    · have heq : (((services E D).hearing H).protocol n).onRecvFirstMessage f.uid data = _ :=
        if_neg hk
      rw [heq]
      trivial
  task {q F i f script} hs hI hi ht := by
    obtain ⟨l,hl,hc,rfl⟩ := id ht
    exact Script.post_and ((upholds E D).task hs hI.1 hi ht) (told_runServerTask hI.2 hl)
  stale {q F uid script} hs hI ht := by
    obtain ⟨l,hl,hc,rfl⟩ := id ht
    exact Script.post_and ((upholds E D).stale hs hI.1 ht) (told_runServerTask hI.2 hl)
  thread hI ht := ⟨(upholds E D).thread hI.1 ht,hI.1.told_dbStep hI.2 ht⟩

theorem told_initial (E : Setting) (D : Deployment) (H : UInt32 → Callback → Prop) :
    Told E D H Shared.initial := ⟨nofun,nofun,nofun⟩

variable {h : List ConnEvent} {w : World Shared} {depth : ℕ} {uid : UInt32} {bytes : List UInt8}

/-- A busy connection has been told something. -/
theorem sent_of_busy {kind : ℕ → Kind} (ho : Owned kind .empty w.priv w.face)
    (hi : (w.table.ctl i).flags.inuse = true) (hb : (w.table.ctl i).flags.outputInProgress = true) :
    ∃ bytes, .sent (w.table.ctl i).uid (w.table.ctl i).outputData bytes ∈ w.priv.record.notes := by
  obtain ⟨⟨b,ns,ns',-,hn,-⟩,-⟩ := steady_of_busy ho (World.face_of_inuse hi) hb
  refine ⟨b.output (w.table.ctl i).outputLen,?_⟩
  rw [hn]
  exact List.mem_append_right _ List.mem_cons_self

end Upholds

end Kaplar.Protocol
