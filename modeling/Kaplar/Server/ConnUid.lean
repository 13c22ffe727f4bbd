import Kaplar.Foundation.Execution
import Kaplar.Server.ConnTable

/-! # Connection uids name one connection

Runs of allocations and releases. The history tells which connection a uid was
issued for; the slot itself only holds a counter that wraps around.
-/
namespace Kaplar.Server
open Execution

inductive SlotEvent where
  | issued (uid : UInt32)
  | released (slot : UInt16)
  deriving DecidableEq, Repr

inductive SlotAction where
  | alloc
  | free (i : ℕ)
  deriving DecidableEq, Repr

namespace ConnTable

/-- An allocation that fails leaves no trace; only a slot in use is released. -/
def slotStep (t : ConnTable) : SlotAction → Option (ConnTable × List SlotEvent)
  | .alloc => match t.internalAlloc with
    | none => some (t,[])
    | some (i,t') => some (t',[.issued (t'.ctl i).uid])
  | .free i => if (t.ctl i).flags.inuse then some (t.internalFree i,[.released (.ofNat i)]) else none

end ConnTable

/-- How often a slot has been handed out. -/
def issues (slot : UInt16) (es : List SlotEvent) : ℕ := es.countP (fun e => match e with
  | .issued uid => slotOf uid == slot
  | .released _ => false)

/-- The uid names the connection it was issued for, as long as its slot has not been
handed out 65536 times since. -/
structure UidsSound (t : ConnTable) (es : List SlotEvent) : Prop where
  freelist : ∃ free, free.Nodup ∧ t.FreeChain free
  allocNull : t.internalAlloc = none ↔ ∀ i < maxConnections, (t.ctl i).flags.inuse = true
  allocUnused : ∀ i t', t.internalAlloc = some (i,t') →
    i < maxConnections ∧ (t.ctl i).flags.inuse = false
  unique : ∀ i j, (t.ctl i).flags.inuse = true → (t.ctl j).flags.inuse = true →
    (t.ctl i).uid = (t.ctl j).uid → i = j
  lookup : ∀ uid es₁ es₂, es = es₁ ++ .issued uid :: es₂ → issues (slotOf uid) es₂ < 65536 →
    ((t.connCtl uid).uid = uid ↔ .released (slotOf uid) ∉ es₂)

/-- What the slot of an issued uid remembers of the events since. -/
structure Remembers (t : ConnTable) (uid : UInt32) (es : List SlotEvent) : Prop where
  slot : (slotOf uid).toNat < t.nextUnusedSlot
  counter : counterOf (t.connCtl uid).uid = (counterOf uid + issues (slotOf uid) es) % 65536
  alive : .released (slotOf uid) ∉ es →
    (t.connCtl uid).uid = uid ∧ (t.connCtl uid).flags.inuse = true ∧ issues (slotOf uid) es = 0
  gone : .released (slotOf uid) ∈ es → issues (slotOf uid) es = 0 →
    (t.connCtl uid).flags.inuse = false

section Steps
variable {t t' : ConnTable} {uid : UInt32} {es fs : List SlotEvent} {i : ℕ}

theorem issues_append : issues (slotOf uid) (es ++ fs) =
    issues (slotOf uid) es + issues (slotOf uid) fs := List.countP_append

/-- An event of another slot. -/
theorem Remembers.other {e : SlotEvent} (h : Remembers t uid es)
    (hnext : t.nextUnusedSlot ≤ t'.nextUnusedSlot) (hc : t'.connCtl uid = t.connCtl uid)
    (hissued : issues (slotOf uid) [e] = 0) (hreleased : e ≠ .released (slotOf uid)) :
    Remembers t' uid (es ++ [e]) := by
  refine ⟨Nat.lt_of_lt_of_le h.slot hnext,?_,?_,?_⟩
  · rw [hc, h.counter, issues_append, hissued, Nat.add_zero]
  · intro hn
    rw [hc, issues_append, hissued, Nat.add_zero]
    exact h.alive (fun hm => hn (List.mem_append.mpr (.inl hm)))
  · intro hm h0
    rw [issues_append, hissued, Nat.add_zero] at h0
    rw [hc]
    refine h.gone ?_ h0
    rcases List.mem_append.mp hm with hm | hm
    · exact hm
    · exact absurd (List.mem_singleton.mp hm).symm hreleased

/-- A slot is free before it is handed out again, and its counter goes on. -/
theorem Remembers.alloc (h : Remembers t uid es) (ha : t.Allocated i t') :
    Remembers t' uid (es ++ [.issued (t'.ctl i).uid]) := by
  have hi : (UInt16.ofNat i).toNat = i := ConnTable.toNat_ofNat_of_lt ha.bound
  have huid : (t'.ctl i).uid = issueUid (t.ctl i).uid (.ofNat i) := by rw [ha.ctl, if_pos rfl]
  have hlt := Nat.lt_of_lt_of_le h.slot ha.next
  by_cases hs : slotOf uid = .ofNat i
  · have hc : t.connCtl uid = t.ctl i := by rw [ConnTable.connCtl, hs, hi]
    have hc' : t'.connCtl uid = t'.ctl i := by rw [ConnTable.connCtl, hs, hi]
    have hrel : .released (slotOf uid) ∈ es := by
      by_contra hn
      have hu := (h.alive hn).2.1
      rw [hc, ha.unused] at hu
      cases hu
    have hone : issues (slotOf uid) [.issued (t'.ctl i).uid] = 1 := by
      simp [issues,huid,hs]
    refine ⟨hlt,?_,?_,?_⟩
    · rw [issues_append, hone, hc', huid, counterOf_issueUid, ← hc, h.counter]
      omega
    · intro hn
      exact absurd (List.mem_append.mpr (.inl hrel)) hn
    · intro _ h0
      rw [issues_append, hone] at h0
      omega
  · have hne : (slotOf uid).toNat ≠ i := by
      intro he
      exact hs (UInt16.toNat_inj.mp (he.trans hi.symm))
    have hc : t'.connCtl uid = t.connCtl uid := by rw [ConnTable.connCtl, ha.ctl, if_neg hne]; rfl
    have hzero : issues (slotOf uid) [.issued (t'.ctl i).uid] = 0 := by
      have hs' : ¬ UInt16.ofNat i = slotOf uid := fun he => hs he.symm
      simp [issues,huid,hs']
    exact h.other ha.next hc hzero SlotEvent.noConfusion

/-- The uid just issued. -/
theorem remembers_issued (ha : t.Allocated i t') : Remembers t' (t'.ctl i).uid [] := by
  have hi : (t'.ctl i).flags.inuse = true := by rw [ha.ctl, if_pos rfl]
  obtain ⟨hlt,hslot⟩ := ha.wf.used i hi
  have hc : t'.connCtl (t'.ctl i).uid = t'.ctl i := by rw [ConnTable.connCtl, hslot]
  refine ⟨by rwa [hslot],?_,?_,nofun⟩
  · rw [hc]
    exact (Nat.mod_eq_of_lt (counterOf_lt _)).symm
  · intro _
    rw [hc]
    exact ⟨rfl,hi,rfl⟩

theorem Remembers.free (h : Remembers t uid es) (hw : t.Wf) (hi : (t.ctl i).flags.inuse = true) :
    Remembers (t.internalFree i) uid (es ++ [.released (.ofNat i)]) := by
  have hi' : (UInt16.ofNat i).toNat = i := ConnTable.slot_lt hw (hw.used i hi).1
  have hzero : issues (slotOf uid) [.released (.ofNat i)] = 0 := rfl
  by_cases hs : slotOf uid = .ofNat i
  · have hc : t.connCtl uid = t.ctl i := by rw [ConnTable.connCtl, hs, hi']
    have hc' : (t.internalFree i).connCtl uid = (t.internalFree i).ctl i := by
      rw [ConnTable.connCtl, hs, hi']
    refine ⟨h.slot,?_,?_,?_⟩
    · rw [issues_append, hzero, Nat.add_zero, ← h.counter, hc, hc']
      simp [ConnTable.internalFree]
    · intro hn
      exact absurd (List.mem_append.mpr (.inr (by rw [hs]; exact List.mem_singleton_self _))) hn
    · intro _ _
      rw [hc']
      simp [ConnTable.internalFree,hi]
  · have hne : (slotOf uid).toNat ≠ i := by
      intro he
      exact hs (UInt16.toNat_inj.mp (he.trans hi'.symm))
    have hc : (t.internalFree i).connCtl uid = t.connCtl uid := by
      simp [ConnTable.connCtl,ConnTable.internalFree,hne]
    exact h.other (Nat.le_refl _) hc hzero (fun he => hs (SlotEvent.released.inj he).symm)

/-- While its counter has not come around, the lookup test tells the two cases apart. -/
theorem Remembers.lookup (h : Remembers t uid es) (hw : t.Wf)
    (hn : issues (slotOf uid) es < 65536) :
    (t.connCtl uid).uid = uid ↔ .released (slotOf uid) ∉ es := by
  constructor
  · intro he hm
    have hcount := h.counter
    rw [he] at hcount
    have hlt := counterOf_lt uid
    have h0 : issues (slotOf uid) es = 0 := by omega
    obtain ⟨free,hc,hmem⟩ := hw.free
    have hfree := (hmem (slotOf uid)).mpr ⟨h.slot,h.gone hm h0⟩
    -- a free slot links to another one
    apply hc.next_ne hfree
    exact congrArg slotOf he
  · intro hm
    exact (h.alive hm).1

end Steps

/-- The table and its history, between calls. -/
structure Kept (es : List SlotEvent) (t : ConnTable) : Prop where
  wf : t.Wf
  history : ∀ uid es₁ es₂, es = es₁ ++ .issued uid :: es₂ → Remembers t uid es₂

theorem split_concat {α : Type*} {es as bs : List α} {e x : α} (h : es ++ [e] = as ++ x :: bs) :
    (bs = [] ∧ x = e) ∨ ∃ cs, bs = cs ++ [e] ∧ es = as ++ x :: cs := by
  rcases List.eq_nil_or_concat bs with rfl | ⟨cs,c,rfl⟩
  · left
    exact ⟨rfl,(List.append_inj_right' h rfl |> List.cons.inj |>.1).symm⟩
  · right
    rw [List.concat_eq_append, ← List.cons_append, ← List.append_assoc] at h
    have hc := (List.append_inj_right' h rfl |> List.cons.inj |>.1).symm
    subst hc
    exact ⟨cs,List.concat_eq_append,List.append_inj_left' h rfl⟩

theorem slotStep_kept {es fs : List SlotEvent} {t t' : ConnTable} {a : SlotAction}
    (hk : Kept es t) (h : t.slotStep a = some (t',fs)) : Kept (es ++ fs) t' := by
  cases a with
  | alloc =>
    rcases ConnTable.internalAlloc_cases hk.wf with ⟨hnone,_⟩ | ⟨i,u,hsome,ha⟩
    · simp only [ConnTable.slotStep, hnone, Option.some.injEq, Prod.mk.injEq] at h
      obtain ⟨rfl,rfl⟩ := h
      rwa [List.append_nil]
    · simp only [ConnTable.slotStep, hsome, Option.some.injEq, Prod.mk.injEq] at h
      obtain ⟨rfl,rfl⟩ := h
      refine ⟨ha.wf,?_⟩
      intro uid es₁ es₂ he
      rcases split_concat he with ⟨rfl,hx⟩ | ⟨cs,rfl,hes⟩
      · cases hx
        exact remembers_issued ha
      · exact (hk.history uid es₁ cs hes).alloc ha
  | free i =>
    simp only [ConnTable.slotStep] at h
    split at h
    case isFalse => cases h
    case isTrue hi =>
      simp only [Option.some.injEq, Prod.mk.injEq] at h
      obtain ⟨rfl,rfl⟩ := h
      refine ⟨ConnTable.internalFree_wf hk.wf hi,?_⟩
      intro uid es₁ es₂ he
      rcases split_concat he with ⟨rfl,hx⟩ | ⟨cs,rfl,hes⟩
      · cases hx
      · exact (hk.history uid es₁ cs hes).free hk.wf hi

/-- In every run the free list is a chain of the free slots, an allocation fails exactly when
all slots are in use, and a uid finds its own connection or none. -/
theorem connUid_sound {es : List SlotEvent} {t : ConnTable}
    (hr : Run (Fires ConnTable.slotStep) .initial es t) : UidsSound t es := by
  have hk : Kept es t := by
    refine hr.traced ⟨ConnTable.initial_wf,?_⟩ ?_
    · intro uid es₁ es₂ he
      exact absurd he.symm (by simp)
    · rintro es s fs t hk ⟨a,ha⟩
      exact slotStep_kept hk ha
  obtain ⟨free,hfree⟩ := hk.wf.free
  refine ⟨⟨free,hfree.chain.nodup,hfree⟩,?_,?_,?_,?_⟩
  · rcases ConnTable.internalAlloc_cases hk.wf with ⟨hnone,hall⟩ | ⟨i,u,hsome,ha⟩
    · exact ⟨fun _ => hall,fun _ => hnone⟩
    · constructor
      · intro hn
        rw [hn] at hsome
        cases hsome
      · intro hall
        have hu := hall i ha.bound
        rw [ha.unused] at hu
        cases hu
  · intro i u hi
    rcases ConnTable.internalAlloc_cases hk.wf with ⟨hnone,_⟩ | ⟨j,v,hsome,ha⟩
    · rw [hnone] at hi
      cases hi
    · rw [hsome] at hi
      cases hi
      exact ⟨ha.bound,ha.unused⟩
  · intro i j hi hj he
    rw [← (hk.wf.used i hi).2, he, (hk.wf.used j hj).2]
  · intro uid es₁ es₂ he hn
    exact (hk.history uid es₁ es₂ he).lookup hk.wf hn

/-- A slot released and handed out again: the first uid is stale. -/
theorem connUid_sound_reused : ∃ t : ConnTable, (t.connCtl 0x00010000).uid ≠ 0x00010000 := by
  obtain ⟨t,ht,_⟩ := replay_view ConnTable.nextUnusedSlot 1
    [.issued 0x00010000,.released 0,.issued 0x00020000]
    (show (replay ConnTable.slotStep .initial [.alloc,.free 0,.alloc]).map
      (fun p => (p.1.nextUnusedSlot,p.2)) = some (1,_) by decide)
  have hs := connUid_sound (replay_run ht)
  have hl := hs.lookup 0x00010000 [] [.released 0,.issued 0x00020000] rfl (by decide)
  exact ⟨t,fun he => absurd (hl.mp he) (by decide)⟩

end Kaplar.Server
