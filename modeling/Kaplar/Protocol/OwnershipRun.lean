import Kaplar.Protocol.OwnershipScripts

/-! # Logins and buffers in every run

In every run of a server with the three protocols everything has one owner. Each login is
resolved once, each outbuf it gets goes to its connection or back into the list, and what
is being written stays as it is.
-/
namespace Kaplar.Protocol
open Kaplar.Server
variable {E : Setting} {D : Deployment} {p q : Shared} {F : ℕ → Option Face} {f : Face} {i n a l : ℕ}

/-! ## All protocols together -/

namespace Owned
variable {kind : ℕ → Kind}

/-- A slot is handed out again under a uid that no login in flight has. -/
theorem opened (ho : Owned kind .empty p F) (hi : F i = none) (hf : f.Fresh)
    (hb : ¬ (Login.usage E).barred p f.uid) :
    Owned kind .empty p (Function.update F i (some f)) := by
  obtain ⟨hproto,-,hbusy,svc,hudata⟩ := hf
  refine ho.setFace ?_ ?_ ?_
  · intro uid a
    rw [hi]
    simp [hudata]
  · rintro _ ⟨⟩
    rw [FaceOk, hproto]
    exact ⟨by simp [hudata],hbusy⟩
  · rintro l d _ - hl ⟨⟩ hu
    exact absurd ⟨l,ho.login_flight hl,d,ho.loginAt hl,hu.symm⟩ hb

end Owned

variable {h : List ConnEvent} {d : ℕ} {w : World Shared}

theorem kind_of_proto (hp : f.proto = some n) {k : Kind} (hk : D.kind n = k) :
    f.proto.map D.kind = some k := by rw [hp, Option.map_some, hk]

/-- Every script, every task and the database thread keep everything owned. -/
theorem upholds (E : Setting) (D : Deployment) :
    Upholds (services E D) (Login.usage E) (Owned D.kind .empty) where
  opened _ ho hi hf _ hb := ho.opened hi hf hb
  dropped _ ho hi hp := by
    have hf := ho.face _ _ hi
    rw [FaceOk, hp] at hf
    exact ho.dropped hi hf.1
  assign n _ ho hi hf := by
    show (((D.kind n).protocol E).onAssignProtocol _).post _ _ _
    cases hk : D.kind n with
    | echo => exact ho.echo_onAssign hi hf hk
    | login => exact ho.assigned hi hf (by rw [hk]; exact Kind.noConfusion)
    | game => exact ho.assigned hi hf (by rw [hk]; exact Kind.noConfusion)
  close {q F i n f} hslot ho hi hp := by
    show (((D.kind n).protocol E).onClose _).post _ _ _
    cases hk : D.kind n with
    | echo => exact ho.echo_onClose hslot hi (kind_of_proto hp hk)
    | login => exact ho.login_onClose hslot hi (kind_of_proto hp hk)
    | game =>
      have hnull := (ho.game hi (kind_of_proto hp hk)).1
      exact ho.dropped hi (by simp [hnull])
  connect {q F i n f} hslot ho hi hp := by
    show (((D.kind n).protocol E).onConnect _).post _ _ _
    cases hk : D.kind n with
    | game => exact ho.game_onConnect hslot hi (kind_of_proto hp hk)
    | _ => trivial
  write {q F i n f} hslot ho hi hp hb := by
    show (((D.kind n).protocol E).onWrite _).post _ _ _
    cases hk : D.kind n with
    | echo => exact ho.echo_onWrite hslot hi (kind_of_proto hp hk)
    | login => exact ho.login_onWrite hslot hi (kind_of_proto hp hk) hb
    | game => exact ho.game_written hslot hi (kind_of_proto hp hk)
  recv {q F i n f} data hslot ho hi hp := by
    show (((D.kind n).protocol E).onRecvMessage _ data).post _ _ _
    cases hk : D.kind n with
    | echo => exact ho.echo_onRecvMessage hslot hi (kind_of_proto hp hk)
    | login => exact Leaves.same (y := Status.abort) hi ho
    | game => exact Leaves.same (y := Status.close) hi ho
  recvFirst {q F i n f} data hslot ho hi hp hfirst := by
    show (((D.kind n).protocol E).onRecvFirstMessage _ data).post _ _ _
    have hmarked := ho.marked hi
    cases hk : D.kind n with
    | echo =>
      let f₁ : Face := { f with firstMsg := true }
      have hslot₁ : Slotted (Function.update F i (some f₁)) := hslot.set hi rfl
      have hrecv : (Echo.onRecvMessage f.uid (data.drop 4)).post
          (Leaves (Owned D.kind .empty) (Function.update F i (some f₁)) i) q (some f₁) :=
        hmarked.echo_onRecvMessage hslot₁ (Function.update_self ..) (kind_of_proto hp hk)
      rwa [Leaves.idem] at hrecv
    | login => exact ho.login_onFirstMessage hslot hi (kind_of_proto hp hk) hfirst data
    | game =>
      show (Game.onFirstMessage E f.uid data).post _ _ _
      unfold Game.onFirstMessage
      split
      · trivial
      · exact hmarked
  task {q F i f script} hslot ho hi ht := by
    obtain ⟨l,hm,hc,rfl⟩ := ht
    exact (ho.dequeue hm).resolve_found hslot hi hc (fun _ _ hq => hq)
  stale {q F uid script} _ ho ht := by
    obtain ⟨l,hm,-,rfl⟩ := ht
    exact (ho.dequeue hm).resolve_gone (fun _ hq => hq)
  thread ho hs := ho.dbStep hs

/-! ## In every run -/

theorem owned_initial (kind : ℕ → Kind) : Owned kind .empty Shared.initial (fun _ => none) := by
  have hblock {a : ℕ} {b : Block} (hb : Shared.initial.heap.block a = some b) :
      b = .static greeting := by
    change (Heap.empty.alloc (Block.static greeting)).block a = some b at hb
    rw [Heap.block_alloc] at hb
    split at hb
    · exact (Option.some.inj hb).symm
    · cases hb
  have hdead (a : ℕ) : ¬ Shared.initial.Live a := by
    rintro ⟨b,hb,hs⟩
    exact hs _ (hblock hb)
  have hlogin {l : ℕ} {d : LoginState} : Shared.initial.heap.block l ≠ some (.loginInfo d) := by
    intro hb
    cases hblock hb
  have hnobody (k : Holder) (a : ℕ) : ¬ Holds .empty Shared.initial (fun _ => none) k a := by
    intro hk
    cases k with
    | pool => cases hk
    | flight => cases hk
    | login l =>
      obtain ⟨-,d,hb,-⟩ := hk
      exact hlogin hb
    | conn uid =>
      obtain ⟨i,f,hf,-⟩ := hk
      cases hf
  refine ⟨rfl,Heap.block_alloc_self,⟨fun hk => absurd hk (hnobody _ _),
    fun hk => absurd hk (hnobody _ _),fun ha => absurd ha (hdead _)⟩,?_,nofun,nofun,nofun⟩
  refine ⟨List.nodup_nil,nofun,nofun,fun _ _ _ _ hb => absurd hb hlogin,
    fun _ _ _ _ hb => absurd hb hlogin,fun _ _ _ hb => absurd hb hlogin,
    fun _ _ _ hb => absurd hb hlogin,.refl _,List.nodup_nil,nofun,fun a => ?_⟩
  have hno : (Shared.initial.outbufAt a).isSome = false := by
    rw [← Bool.not_eq_true, outbufAt_isSome]
    rintro ⟨-,b,hb⟩
    cases hblock hb
  rw [hno]
  rfl

theorem upheld_initial (kind : ℕ → Kind) :
    Upheld (Owned kind .empty) (World.initial Shared.initial) := by
  have hface : (World.initial Shared.initial).face = fun _ => none := rfl
  rw [Upheld, hface]
  exact ⟨nofun,owned_initial kind⟩

/-- In every state a server comes to everything has one owner. -/
theorem owned_reachable (hr : Reachable (services E D) d (Login.usage E) Shared.initial w h) :
    Good (services E D) w h ∧ Owned D.kind .empty w.priv w.face := by
  obtain ⟨hg,hu⟩ := ((upholds E D).serves services_closeless services_plainClose).reachable
    (upheld_initial D.kind) hr trivial
  exact ⟨hg,hu.2⟩

/-! ## What becomes of the logins -/

/-- Whoever has an outbuf that has been acquired. -/
inductive Owner where
  | login (l : ℕ)
  | conn (uid : UInt32)

/-- A login in flight has it for the connection it will go to; a connection has it in its
`udata`. -/
def Owner.Has (p : Shared) (F : ℕ → Option Face) (a : ℕ) : Owner → Prop
  | .login l => l ∈ p.inFlight ∧ ∃ d, p.loginAt l = some d ∧ d.output = some a ∧
      p.acquiredFor a = some d.connection
  | .conn uid => p.acquiredFor a = some uid ∧ ∃ i f, F i = some f ∧ f.uid = uid ∧ f.udata = .ptr a

/-- Every login is in flight or has been resolved, once, and every outbuf is with its login or
with the connection of this login until it is released, once. -/
structure LoginsKept (p : Shared) (F : ℕ → Option Face) : Prop where
  sane : p.record.misused = false
  once : ∀ l ∈ p.record.made, p.record.resolved.count l + p.inFlight.count l = 1
  made : ∀ l, l ∈ p.record.resolved ∨ l ∈ p.inFlight → l ∈ p.record.made
  inFlight : ∀ l ∈ p.inFlight, (p.loginAt l).isSome = true
  freed : ∀ l ∈ p.record.resolved, p.loginAt l = none
  released : ∀ a, (p.record.acquired.map Prod.fst).count a =
    p.record.released.count a + if (p.outbufAt a).isSome then 1 else 0
  owner : ∀ a, (p.outbufAt a).isSome = true → ∃! o : Owner, o.Has p F a
  own : ∀ i f a, F i = some f → f.udata = .ptr a → (p.outbufAt a).isSome = true →
    p.acquiredFor a = some f.uid

namespace Owned
variable {kind : ℕ → Kind}

theorem count_made (ho : Owned kind .empty p F) (l : ℕ) :
    p.record.made.count l = p.record.resolved.count l + p.inFlight.count l := by
  rw [ho.logins.made.count_eq, List.count_append]
  rfl

/-- The owners of an outbuf are the holders of its block. -/
theorem has_iff (ho : Owned kind .empty p F) {b : Outbuf} (hat : p.outbufAt a = some b) :
    (∀ l, (Owner.login l).Has p F a ↔ Holds .empty p F (.login l) a) ∧
      ∀ uid, (Owner.conn uid).Has p F a ↔ Holds .empty p F (.conn uid) a := by
  obtain ⟨hidle,hb⟩ := heap_of_block (outbufAt_eq.mp hat)
  constructor
  · intro l
    constructor
    · rintro ⟨-,d,hd,hout,-⟩
      exact ⟨nofun,d,(heap_of_block (loginAt_eq.mp hd)).2,hout⟩
    · rintro ⟨hh,d,hd,hout⟩
      exact ⟨ho.login_flight hd,d,ho.loginAt hd,hout,(ho.logins.output l d a hh hd hout).2⟩
  · intro uid
    constructor
    · exact And.right
    · rintro ⟨i,f,hi,rfl,hptr⟩
      exact ⟨ho.acquiredFor i f a b hi hptr hb,i,f,hi,rfl,hptr⟩

theorem owner (ho : Owned kind .empty p F) {b : Outbuf} (hat : p.outbufAt a = some b) :
    ∃! o : Owner, o.Has p F a := by
  obtain ⟨hidle,hb⟩ := heap_of_block (outbufAt_eq.mp hat)
  obtain ⟨hlogin,hconn⟩ := ho.has_iff hat
  obtain ⟨k,hk,hunique⟩ := ho.exclusive.existsUnique (live_of_block hb (by simp))
  have hother {o : Owner} {k' : Holder} (hk' : Holds .empty p F k' a) (ho' : o.Has p F a) :
      (∃ l, o = .login l ∧ k' = .login l) ∨ ∃ uid, o = .conn uid ∧ k' = .conn uid := by
    cases o with
    | login l => exact .inl ⟨l,rfl,(hunique _ hk').trans (hunique _ ((hlogin l).mp ho')).symm⟩
    | conn uid => exact .inr ⟨uid,rfl,(hunique _ hk').trans (hunique _ ((hconn uid).mp ho')).symm⟩
  cases k with
  | pool => exact absurd hk hidle
  | flight =>
    obtain ⟨d,hd⟩ := ho.logins.flight a hk
    rw [hb] at hd
    cases hd
  | login l =>
    refine ⟨.login l,(hlogin l).mpr hk,fun o ho' => ?_⟩
    rcases hother hk ho' with ⟨l',rfl,hl⟩ | ⟨uid,rfl,hl⟩ <;> cases hl
    rfl
  | conn uid =>
    refine ⟨.conn uid,(hconn uid).mpr hk,fun o ho' => ?_⟩
    rcases hother hk ho' with ⟨l',rfl,hl⟩ | ⟨uid',rfl,hl⟩ <;> cases hl
    rfl

theorem kept (ho : Owned kind .empty p F) : LoginsKept p F := by
  have hl := ho.logins
  have hcount := ho.count_made
  refine ⟨ho.sane,?_,?_,?_,?_,hl.acquired,?_,?_⟩
  · intro l hm
    rw [← hcount]
    exact List.count_eq_one_of_mem hl.madeOnce hm
  · intro l hm
    rw [hl.made.mem_iff, List.mem_append]
    exact hm
  · intro l hm
    obtain ⟨d,hd⟩ := hl.flight l hm
    rw [ho.loginAt hd]
    rfl
  · intro l hm
    cases hat : p.loginAt l with
    | none => rfl
    | some d =>
      have hflight : l ∈ p.inFlight := ho.login_flight (heap_of_block (loginAt_eq.mp hat)).2
      have hdisjoint := (List.nodup_append.mp (hl.made.nodup_iff.mp hl.madeOnce)).2.2
      exact absurd rfl (hdisjoint l hm l hflight)
  · intro a hs
    obtain ⟨b,hb⟩ := Option.isSome_iff_exists.mp hs
    exact ho.owner hb
  · intro i f a hi hd hs
    obtain ⟨b,hb⟩ := Option.isSome_iff_exists.mp hs
    exact ho.acquiredFor i f a b hi hd (heap_of_block (outbufAt_eq.mp hb)).2

end Owned

/-- Only logins are served, and the task queue of the database is full. -/
def crowded : Setting where
  rsa _ := some (List.replicate 127 0)
  cfg := ⟨[],[],0⟩
  ptrSize := 8
  accepts _ := false

def onlyLogins : Deployment := ⟨fun _ => .login,fun _ => [0],fun _ => List.cons_ne_nil _ _⟩

/-- A login message of version 860 behind its checksum. -/
def loginMessage : List UInt8 :=
  [0x61,0x00,0xD1,0x35,0x01,0x00,0x00,0x5C,0x03] ++ List.replicate 140 0

def refused : List (Action Shared × List Bool) :=
  [(.accept 0,[true]),(.complete 0 ⟨0,.readLength⟩ false 2 [149,0],[true]),
    (.complete 0 ⟨0,.readBody 149⟩ false 149 loginMessage,[true])]

theorem refused_plays : Plays (services crowded onlyLogins) 0 (Login.usage crowded) refused
    (World.initial Shared.initial,[]) := by
  refine ⟨?_,rfl,⟨by decide,.read rfl rfl⟩,rfl,⟨by decide +kernel,.read rfl rfl⟩,
    by decide +kernel,trivial⟩
  rintro i t - ⟨l,hm,-⟩
  exact List.not_mem_nil hm

def afterRefusal : World Shared := ((services crowded onlyLogins).play 0 refused Shared.initial).1

theorem refused_reachable : Reachable (services crowded onlyLogins) 0 (Login.usage crowded)
    Shared.initial afterRefusal ((services crowded onlyLogins).play 0 refused Shared.initial).2 :=
  refused_plays.reachable

theorem steady_of_busy {kind : ℕ → Kind} (ho : Owned kind .empty p F) (hi : F i = some f)
    (hb : f.busy = true) : Steady p f ∧ f.outputData ∉ p.idle := by
  have hf := ho.face i f hi
  unfold FaceOk at hf
  cases hk : f.proto.map kind with
  | none =>
    rw [hk] at hf
    rw [hf.2] at hb
    cases hb
  | some k =>
    rw [hk] at hf
    cases k with
    | echo =>
      obtain ⟨a,e,hd,-,hbusy⟩ := hf
      obtain ⟨-,rfl,hs⟩ := hbusy hb
      exact ⟨hs,ho.conn_not_idle hi hd⟩
    | login =>
      obtain ⟨hd,hs⟩ := hf.2.2 hb
      exact ⟨hs,ho.conn_not_idle hi hd⟩
    | game =>
      obtain ⟨hdata,hs⟩ := hf.2 hb
      refine ⟨hs,fun hm => ?_⟩
      obtain ⟨o,hout⟩ := ho.logins.idle _ hm
      rw [hdata, ho.greeting] at hout
      cases hout

/-- While a write is outstanding its block is there with the bytes it had when they were
handed over, and nobody has written to it, released it or freed it since. -/
theorem outstanding_write_steady
    (hr : Reachable (services E D) d (Login.usage E) Shared.initial w h) {pending : Pending}
    {data : ℕ} {len : UInt32} (hp : pending ∈ w.ops i) (hop : pending.op = .write data len) :
    ∃ b ns ns', w.priv.block data = some b ∧ w.priv.record.notes =
      ns ++ .sent (w.table.ctl i).uid data (b.output len) :: ns' ∧ ∀ n ∈ ns',
        n ≠ .touched data ∧ ∀ a bytes, n ≠ .sent (w.table.ctl i).uid a bytes := by
  obtain ⟨hg,ho⟩ := owned_reachable hr
  have hi : w.inuse i := by
    by_contra hi
    rw [hg.managed.idle i hi] at hp
    cases hp
  obtain ⟨l,hc⟩ := hg.managed.conn i hi
  have hwrite : pending.op.isWrite = true := by
    rw [hop]
    rfl
  have heq := (hc.output pending hp hwrite).symm.trans hop
  obtain ⟨⟨b,ns,ns',hb,hn,hrest⟩,hidle⟩ :=
    steady_of_busy ho (World.face_of_inuse hi) (hc.inProgress pending hp hwrite)
  injection heq with hdata hlen
  subst hdata hlen
  exact ⟨b,ns,ns',block_of_heap hidle hb,hn,hrest⟩

/-- The answer is on its way to the client. -/
theorem outstanding_write_steady_refused : ∃ b ns ns', afterRefusal.priv.block 2 = some b ∧
    afterRefusal.priv.record.notes =
      ns ++ .sent (afterRefusal.table.ctl 0).uid 2 (b.output 46) :: ns' ∧
    ∀ n ∈ ns', n ≠ .touched 2 ∧ ∀ a bytes, n ≠ .sent (afterRefusal.table.ctl 0).uid a bytes :=
  outstanding_write_steady refused_reachable
    (show (⟨0,.write 2 46⟩ : Pending) ∈ afterRefusal.ops 0 by decide +kernel) rfl

end Kaplar.Protocol
