import Kaplar.Foundation.Endian
import Mathlib.Data.List.Induction

/-! # The life of a connection

What the connection manager does with one connection, as the list of its events. A
socket names its connection. The stages say in which order the callbacks of a
protocol and the operations on the socket may come.
-/
namespace Kaplar.Server

/-- An operation of a connection: what it asks the OS for. -/
inductive Op where
  | readLength
  | readBody (len : UInt32)
  | write (data : ℕ) (len : UInt32)
  deriving DecidableEq, Repr

def Op.isRead : Op → Bool
  | .readLength => true
  | .readBody _ => true
  | .write _ _ => false

def Op.isWrite (op : Op) : Bool := !op.isRead

inductive Callback where
  | assign
  | connect
  | recvFirst (body : List UInt8)
  | recv (body : List UInt8)
  | write
  | close
  deriving DecidableEq, Repr

/-- `protocol_status_t` -/
inductive Status where
  | ok
  | stopReading
  | close
  | abort
  deriving DecidableEq, Repr

inductive ConnEvent where
  | accepted (s : ℕ) (uid : UInt32) (svc : ℕ)
  | called (s : ℕ) (uid : UInt32) (k : Callback)
  /-- what `on_assign_protocol` returned -/
  | assigned (s : ℕ) (ok : Bool)
  /-- what another callback returned -/
  | returned (s : ℕ) (k : Callback) (st : Status)
  /-- a call of `connection_close` or `connection_abort` -/
  | asked (s : ℕ)
  /-- a callback or a server task crashes by itself -/
  | faulted (s : ℕ)
  | started (s : ℕ) (op : Op)
  /-- a completion, with the bytes a successful read has left in the input buffer -/
  | completed (s : ℕ) (op : Op) (bytes : List UInt8)
  /-- `CancelIoEx` of all operations or of the read -/
  | cancelled (s : ℕ) (all : Bool)
  | closesocket (s : ℕ)
  | freed (s : ℕ) (slot : UInt16)
  deriving DecidableEq, Repr

def ConnEvent.socket : ConnEvent → ℕ
  | .accepted s _ _ => s
  | .called s _ _ => s
  | .assigned s _ => s
  | .returned s _ _ => s
  | .asked s => s
  | .faulted s => s
  | .started s _ => s
  | .completed s _ _ => s
  | .cancelled s _ => s
  | .closesocket s => s
  | .freed s _ => s

/-- The events of one connection. -/
def history (s : ℕ) (log : List ConnEvent) : List ConnEvent := log.filter (fun e => e.socket = s)

def calls : List ConnEvent → List Callback := List.filterMap fun
  | .called _ _ k => some k
  | _ => none

def answers : List ConnEvent → List Bool := List.filterMap fun
  | .assigned _ ok => some ok
  | _ => none

theorem calls_append (h h' : List ConnEvent) : calls (h ++ h') = calls h ++ calls h' :=
  List.filterMap_append

theorem answers_append (h h' : List ConnEvent) : answers (h ++ h') = answers h ++ answers h' :=
  List.filterMap_append

section History
variable {s : ℕ} {log es : List ConnEvent}

theorem history_append (s : ℕ) (log es : List ConnEvent) :
    history s (log ++ es) = history s log ++ history s es := List.filter_append ..

theorem history_own (h : ∀ e ∈ es, e.socket = s) : history s es = es :=
  List.filter_eq_self.mpr (fun e he => decide_eq_true (h e he))

theorem history_other {s' : ℕ} (h : ∀ e ∈ es, e.socket = s) (hs : s' ≠ s) :
    history s' es = [] := by
  apply List.filter_eq_nil_iff.mpr
  intro e he
  rw [h e he]
  simpa using hs.symm

theorem mem_history {e : ConnEvent} : e ∈ history s log ↔ e ∈ log ∧ e.socket = s := by
  rw [history, List.mem_filter, decide_eq_true_iff]

end History

/-! ## Stages -/

inductive Stage where
  | absent
  /-- accepted, with no protocol -/
  | fresh
  /-- inside `on_assign_protocol` -/
  | asking
  | answered (ok : Bool)
  /-- with a protocol that has, or has not, got its first message -/
  | opened (first : Bool)
  /-- `on_close` was called -/
  | closed
  | shut
  | gone
  deriving DecidableEq, Repr

/-- The operations of a connection start and complete before it is closed. -/
def Stage.live : Stage → Bool
  | .fresh | .asking | .answered _ | .opened _ => true
  | _ => false

structure Life where
  sendsFirst : Bool
  stage : Stage
  /-- how many operations have started and not completed -/
  outstanding : ℕ
  deriving DecidableEq, Repr

def Life.absent : Life := ⟨false,.absent,0⟩

/-- The stage a callback is allowed in, and the one it leads to. -/
def Life.call (l : Life) : Callback → Option Life
  | .assign => match l.stage with
    | .fresh => some { l with stage := .asking }
    | _ => none
  | .connect => match l.stage with
    | .answered true => if l.sendsFirst then some { l with stage := .opened false } else none
    | _ => none
  | .recvFirst _ => match l.stage with
    | .answered true => if l.sendsFirst then none else some { l with stage := .opened true }
    | .opened false => some { l with stage := .opened true }
    | _ => none
  | .recv _ => match l.stage with
    | .opened true => some l
    | _ => none
  | .write => match l.stage with
    | .opened _ => some l
    | _ => none
  | .close => match l.stage, l.outstanding with
    | .asking, 0 | .answered false, 0 | .opened _, 0 => some { l with stage := .closed }
    | _, _ => none

variable (sendsFirst : ℕ → Bool)

def Life.next (l : Life) : ConnEvent → Option Life
  | .accepted _ _ svc => match l.stage with
    | .absent => some { l with sendsFirst := sendsFirst svc, stage := .fresh }
    | _ => none
  | .called _ _ k => l.call k
  | .assigned _ ok => match l.stage with
    | .asking => some { l with stage := .answered ok }
    | _ => none
  | .returned _ _ _ => some l
  | .asked _ => some l
  | .faulted _ => some l
  | .started _ _ => if l.stage.live then some { l with outstanding := l.outstanding + 1 } else none
  | .completed _ _ _ => match l.outstanding with
    | 0 => none
    | n + 1 => if l.stage.live then some { l with outstanding := n } else none
  | .cancelled _ _ => if l.stage.live then some l else none
  | .closesocket _ => match l.stage, l.outstanding with
    | .fresh, 0 | .closed, 0 => some { l with stage := .shut }
    | _, _ => none
  | .freed _ _ => match l.stage with
    | .shut => some { l with stage := .gone }
    | _ => none

/-- The life a history describes, if all its events come in order. -/
def life (h : List ConnEvent) : Option Life := h.foldlM (Life.next sendsFirst) .absent

theorem life_append (h h' : List ConnEvent) :
    life sendsFirst (h ++ h') = (life sendsFirst h).bind (h'.foldlM (Life.next sendsFirst)) :=
  List.foldlM_append

theorem life_concat (h : List ConnEvent) (e : ConnEvent) :
    life sendsFirst (h ++ [e]) = (life sendsFirst h).bind (fun l => l.next sendsFirst e) := by
  rw [life_append]
  congr 1
  funext l
  exact bind_pure (l.next sendsFirst e)

/-! ## The end of a connection -/

/-- The stages come in this order. -/
def Stage.rank : Stage → ℕ
  | .absent => 0
  | .fresh => 1
  | .asking => 2
  | .answered _ => 3
  | .opened false => 4
  | .opened true => 5
  | .closed => 6
  | .shut => 7
  | .gone => 8

section End
variable {sendsFirst} {l l' : Life} {h h₁ h₂ : List ConnEvent} {e : ConnEvent} {s : ℕ}

theorem Stage.rank_of_live {stage : Stage} (h : stage.live = true) : stage.rank < 6 := by
  cases stage with
  | fresh => exact Nat.le_of_ble_eq_true rfl
  | asking => exact Nat.le_of_ble_eq_true rfl
  | answered ok => exact Nat.le_of_ble_eq_true rfl
  | opened heard => cases heard <;> exact Nat.le_of_ble_eq_true rfl
  | _ => cases h

theorem Life.rank_le (hn : l.next sendsFirst e = some l') : l.stage.rank ≤ l'.stage.rank := by
  obtain ⟨first,stage,n⟩ := l
  cases e with
  | accepted s uid svc =>
    cases stage <;> cases hn
    exact Nat.le_of_ble_eq_true rfl
  | called s uid k =>
    cases k with
    | assign =>
      cases stage <;> cases hn
      exact Nat.le_of_ble_eq_true rfl
    | connect =>
      cases stage with
      | answered ok =>
        cases ok <;> cases first <;> cases hn
        exact Nat.le_of_ble_eq_true rfl
      | _ => cases hn
    | recvFirst body =>
      cases stage with
      | answered ok =>
        cases ok <;> cases first <;> cases hn
        exact Nat.le_of_ble_eq_true rfl
      | opened heard =>
        cases heard <;> cases hn
        exact Nat.le_of_ble_eq_true rfl
      | _ => cases hn
    | recv body =>
      cases stage with
      | opened heard =>
        cases heard <;> cases hn
        exact Nat.le_refl _
      | _ => cases hn
    | write =>
      cases stage with
      | opened heard =>
        cases hn
        exact Nat.le_refl _
      | _ => cases hn
    | close =>
      cases n with
      | zero =>
        cases stage with
        | asking => cases hn; exact Nat.le_of_ble_eq_true rfl
        | answered ok => cases ok <;> cases hn; exact Nat.le_of_ble_eq_true rfl
        | opened heard => cases hn; cases heard <;> exact Nat.le_of_ble_eq_true rfl
        | _ => cases hn
      | succ n => cases stage <;> first | cases hn | (rename_i ok; cases ok <;> cases hn)
  | assigned s ok =>
    cases stage <;> cases hn
    exact Nat.le_of_ble_eq_true rfl
  | returned s k st => cases hn; exact Nat.le_refl _
  | asked s => cases hn; exact Nat.le_refl _
  | faulted s => cases hn; exact Nat.le_refl _
  | started s op =>
    simp only [Life.next, Option.ite_none_right_eq_some, Option.some.injEq] at hn
    obtain ⟨_,rfl⟩ := hn
    exact Nat.le_refl _
  | completed s op bytes =>
    cases n with
    | zero => cases hn
    | succ n =>
      simp only [Life.next, Option.ite_none_right_eq_some, Option.some.injEq] at hn
      obtain ⟨_,rfl⟩ := hn
      exact Nat.le_refl _
  | cancelled s all =>
    simp only [Life.next, Option.ite_none_right_eq_some, Option.some.injEq] at hn
    obtain ⟨_,rfl⟩ := hn
    exact Nat.le_refl _
  | closesocket s =>
    cases n with
    | zero => cases stage <;> cases hn <;> exact Nat.le_of_ble_eq_true rfl
    | succ n => cases stage <;> cases hn
  | freed s slot =>
    cases stage <;> cases hn
    exact Nat.le_of_ble_eq_true rfl

theorem Life.rank_le_foldlM (hl : h.foldlM (Life.next sendsFirst) l = some l') :
    l.stage.rank ≤ l'.stage.rank := by
  induction h generalizing l with
  | nil =>
    cases hl
    exact Nat.le_refl _
  | cons e h ih =>
    obtain ⟨l₁,hn,hl⟩ := Option.bind_eq_some_iff.mp hl
    exact Nat.le_trans (Life.rank_le hn) (ih hl)

/-- A history at one of its events. -/
theorem life_split (hl : life sendsFirst (h₁ ++ e :: h₂) = some l) :
    ∃ l₁ l₂, life sendsFirst h₁ = some l₁ ∧ l₁.next sendsFirst e = some l₂ ∧
      h₂.foldlM (Life.next sendsFirst) l₂ = some l := by
  rw [life_append] at hl
  obtain ⟨l₁,h₁,hl⟩ := Option.bind_eq_some_iff.mp hl
  obtain ⟨l₂,h₂,hl⟩ := Option.bind_eq_some_iff.mp hl
  exact ⟨l₁,l₂,h₁,h₂,hl⟩

theorem Life.call_eq {k : Callback} (hn : l.call k = some l') :
    l' = { l with stage := l'.stage } := by
  obtain ⟨first,stage,n⟩ := l
  cases k with
  | assign => cases stage <;> cases hn; rfl
  | connect =>
    cases stage with
    | answered ok => cases ok <;> cases first <;> cases hn; rfl
    | _ => cases hn
  | recvFirst body =>
    cases stage with
    | answered ok => cases ok <;> cases first <;> cases hn; rfl
    | opened heard => cases heard <;> cases hn; rfl
    | _ => cases hn
  | recv body =>
    cases stage with
    | opened heard => cases heard <;> cases hn; rfl
    | _ => cases hn
  | write => cases stage <;> cases hn; rfl
  | close =>
    cases n with
    | zero =>
      cases stage with
      | answered ok => cases ok <;> cases hn; rfl
      | _ => cases hn <;> rfl
    | succ n =>
      cases stage with
      | answered ok => cases ok <;> cases hn
      | _ => cases hn

/-- The events that end a connection. -/
def ConnEvent.ends : ConnEvent → ℕ
  | .called _ _ .close => 6
  | .closesocket _ => 7
  | .freed _ _ => 8
  | _ => 0

/-- An event that ends a connection takes it to a later stage. -/
theorem Life.ends (hn : l.next sendsFirst e = some l') (he : e.ends ≠ 0) :
    l.stage.rank < l'.stage.rank ∧ l'.stage.rank = e.ends ∧
      l'.outstanding = l.outstanding ∧ (l.outstanding = 0 ∨ 6 ≤ l.stage.rank) := by
  obtain ⟨first,stage,n⟩ := l
  cases e with
  | called s uid k =>
    cases k with
    | close =>
      cases n with
      | zero =>
        cases stage with
        | asking => cases hn; exact ⟨Nat.le_of_ble_eq_true rfl,rfl,rfl,.inl rfl⟩
        | answered ok => cases ok <;> cases hn; exact ⟨Nat.le_of_ble_eq_true rfl,rfl,rfl,.inl rfl⟩
        | opened heard =>
          cases hn
          exact ⟨by cases heard <;> exact Nat.le_of_ble_eq_true rfl,rfl,rfl,.inl rfl⟩
        | _ => cases hn
      | succ n => cases stage <;> first | cases hn | (rename_i ok; cases ok <;> cases hn)
    | _ => exact absurd rfl he
  | closesocket s =>
    cases n with
    | zero => cases stage <;> cases hn <;> exact ⟨Nat.le_of_ble_eq_true rfl,rfl,rfl,.inl rfl⟩
    | succ n => cases stage <;> cases hn
  | freed s slot =>
    cases stage <;> cases hn
    exact ⟨Nat.le_of_ble_eq_true rfl,rfl,rfl,.inr (Nat.le_of_ble_eq_true rfl)⟩
  | _ => exact absurd rfl he

/-- Any other event leaves the stage, or leads to one in which the connection lives. -/
theorem Life.next_stage (hn : l.next sendsFirst e = some l') (he : e.ends = 0) :
    l'.stage.live = true ∨ l'.stage = l.stage := by
  obtain ⟨first,stage,n⟩ := l
  cases e with
  | accepted s uid svc =>
    cases stage <;> cases hn
    exact .inl rfl
  | called s uid k =>
    cases k with
    | assign => cases stage <;> cases hn; exact .inl rfl
    | connect =>
      cases stage with
      | answered ok => cases ok <;> cases first <;> cases hn; exact .inl rfl
      | _ => cases hn
    | recvFirst body =>
      cases stage with
      | answered ok => cases ok <;> cases first <;> cases hn; exact .inl rfl
      | opened heard => cases heard <;> cases hn; exact .inl rfl
      | _ => cases hn
    | recv body =>
      cases stage with
      | opened heard => cases heard <;> cases hn; exact .inl rfl
      | _ => cases hn
    | write => cases stage <;> cases hn; exact .inl rfl
    | close => cases he
  | assigned s ok =>
    cases stage <;> cases hn
    exact .inl rfl
  | completed s op bytes =>
    cases n with
    | zero => cases hn
    | succ n =>
      simp only [Life.next, Option.ite_none_right_eq_some, Option.some.injEq] at hn
      obtain ⟨_,rfl⟩ := hn
      exact .inr rfl
  | closesocket s => cases he
  | freed s slot => cases he
  | returned s k st => cases hn; exact .inr rfl
  | asked s => cases hn; exact .inr rfl
  | faulted s => cases hn; exact .inr rfl
  | started s op =>
    simp only [Life.next, Option.ite_none_right_eq_some, Option.some.injEq] at hn
    obtain ⟨_,rfl⟩ := hn
    exact .inr rfl
  | cancelled s all =>
    simp only [Life.next, Option.ite_none_right_eq_some, Option.some.injEq] at hn
    obtain ⟨_,rfl⟩ := hn
    exact .inr rfl

/-- A socket that has been closed shows. -/
theorem ended_of_closesocket (hl : life sendsFirst h = some l) (hm : .closesocket s ∈ h) :
    7 ≤ l.stage.rank := by
  obtain ⟨h₁,h₂,rfl⟩ := List.append_of_mem hm
  obtain ⟨l₁,l₂,_,hn,hrest⟩ := life_split hl
  have hends := (Life.ends hn (show (7 : ℕ) ≠ 0 by decide)).2.1
  exact Nat.le_trans (Nat.le_of_eq hends.symm) (Life.rank_le_foldlM hrest)

/-- The last two stages are reached by their own events only. -/
theorem Life.ended (hn : l.next sendsFirst e = some l') {r : ℕ} (hr : 7 ≤ r)
    (hlt : l.stage.rank < r) (hle : r ≤ l'.stage.rank) : e.ends = r := by
  by_cases he : e.ends = 0
  · rcases Life.next_stage hn he with hlive | hsame
    · have := Stage.rank_of_live hlive
      omega
    · rw [hsame] at hle
      omega
  · obtain ⟨_,hends,_⟩ := Life.ends hn he
    cases e with
    | called s uid k =>
      cases k with
      | close =>
        rw [hends, show ConnEvent.ends (.called s uid .close) = 6 from rfl] at hle
        omega
      | _ => exact absurd rfl he
    | closesocket s =>
      rw [hends, show ConnEvent.ends (.closesocket s) = 7 from rfl] at hle
      exact Nat.le_antisymm hr hle
    | freed s slot =>
      obtain ⟨first,stage,n⟩ := l
      cases stage <;> cases hn
      exact Nat.le_antisymm hlt hle
    | _ => exact absurd rfl he

/-- Each event that ends a connection comes at most once. -/
theorem life_ends_le (hl : life sendsFirst h = some l) {r : ℕ} (hr : r ≠ 0) :
    h.countP (fun e => e.ends = r) ≤ if r ≤ l.stage.rank then 1 else 0 := by
  induction h using List.reverseRecOn generalizing l with
  | nil => exact Nat.zero_le _
  | append_singleton h e ih =>
    rw [life_concat] at hl
    obtain ⟨l₀,hl₀,hn⟩ := Option.bind_eq_some_iff.mp hl
    have hcount := ih hl₀
    rw [List.countP_append, List.countP_singleton]
    by_cases he : e.ends = r
    · obtain ⟨hlt,hends,_⟩ := Life.ends hn (he ▸ hr)
      rw [if_neg (by omega)] at hcount
      rw [if_pos (decide_eq_true he), if_pos (by omega)]
      omega
    · have hle := Life.rank_le hn
      rw [if_neg (by simpa using he)]
      split at hcount
      case isTrue =>
        rw [if_pos (by omega)]
        exact hcount
      case isFalse =>
        rw [Nat.le_zero.mp hcount]
        exact Nat.zero_le _

/-- A connection that is past its end has been closed and freed once. -/
theorem life_ends_eq (hl : life sendsFirst h = some l) {r : ℕ} (hr : 7 ≤ r)
    (hle : r ≤ l.stage.rank) : h.countP (fun e => e.ends = r) = 1 := by
  induction h using List.reverseRecOn generalizing l with
  | nil =>
    cases hl
    exact absurd (Nat.le_trans hr hle) (by decide)
  | append_singleton h e ih =>
    have hmax := life_ends_le hl (r := r) (by omega)
    rw [if_pos hle] at hmax
    rw [life_concat] at hl
    obtain ⟨l₀,hl₀,hn⟩ := Option.bind_eq_some_iff.mp hl
    rw [List.countP_append, List.countP_singleton] at hmax ⊢
    by_cases hle₀ : r ≤ l₀.stage.rank
    · rw [ih hl₀ hle₀] at hmax ⊢
      omega
    · rw [if_pos (decide_eq_true (Life.ended hn hr (by omega) hle))] at hmax ⊢
      omega

/-- Nothing starts once the end has begun. -/
theorem started_not_after (hl : life sendsFirst (h₁ ++ e :: h₂) = some l) (he : 6 ≤ e.ends)
    (s : ℕ) (op : Op) : .started s op ∉ h₂ := by
  intro hm
  obtain ⟨h₃,h₄,rfl⟩ := List.append_of_mem hm
  obtain ⟨l₁,l₂,_,hn,hrest⟩ := life_split hl
  rw [List.foldlM_append] at hrest
  obtain ⟨l₃,hmid,hrest⟩ := Option.bind_eq_some_iff.mp hrest
  obtain ⟨l₄,hstart,_⟩ := Option.bind_eq_some_iff.mp hrest
  have hends := (Life.ends hn (by omega)).2.1
  have hle := Life.rank_le_foldlM hmid
  simp only [Life.next, Option.ite_none_right_eq_some] at hstart
  have hlive := Stage.rank_of_live hstart.1
  omega

/-! ## Operations started and completed -/

def ConnEvent.starts : ConnEvent → Bool
  | .started _ _ => true
  | _ => false

def ConnEvent.completes : ConnEvent → Bool
  | .completed _ _ _ => true
  | _ => false

/-- Every operation that has started has completed. -/
def Idle (h : List ConnEvent) : Prop :=
  h.countP ConnEvent.starts = h.countP ConnEvent.completes

instance (h : List ConnEvent) : Decidable (Idle h) := inferInstanceAs (Decidable (_ = _))

/-- A connection has been asked to close while it had nothing outstanding. -/
def Quit (s : ℕ) (log : List ConnEvent) : Prop :=
  ∃ h₁ h₂, log = h₁ ++ .asked s :: h₂ ∧ Idle (history s h₁)

theorem Life.next_count (hn : l.next sendsFirst e = some l') :
    l'.outstanding + (if e.completes then 1 else 0) =
      l.outstanding + (if e.starts then 1 else 0) := by
  cases e with
  | accepted s uid svc =>
    obtain ⟨first,stage,n⟩ := l
    cases stage <;> cases hn
    rfl
  | called s uid k =>
    rw [Life.call_eq hn]
    rfl
  | assigned s ok =>
    obtain ⟨first,stage,n⟩ := l
    cases stage <;> cases hn
    rfl
  | started s op =>
    simp only [Life.next, Option.ite_none_right_eq_some, Option.some.injEq] at hn
    obtain ⟨_,rfl⟩ := hn
    rfl
  | completed s op bytes =>
    obtain ⟨first,stage,n⟩ := l
    cases n with
    | zero => cases hn
    | succ n =>
      simp only [Life.next, Option.ite_none_right_eq_some, Option.some.injEq] at hn
      obtain ⟨_,rfl⟩ := hn
      rfl
  | cancelled s all =>
    simp only [Life.next, Option.ite_none_right_eq_some, Option.some.injEq] at hn
    obtain ⟨_,rfl⟩ := hn
    rfl
  | closesocket s =>
    rw [(Life.ends hn (show (7 : ℕ) ≠ 0 by decide)).2.2.1]
    rfl
  | freed s slot =>
    rw [(Life.ends hn (show (8 : ℕ) ≠ 0 by decide)).2.2.1]
    rfl
  | _ =>
    cases hn
    rfl

theorem life_count (hl : life sendsFirst h = some l) :
    h.countP ConnEvent.starts = h.countP ConnEvent.completes + l.outstanding := by
  induction h using List.reverseRecOn generalizing l with
  | nil =>
    cases hl
    rfl
  | append_singleton h e ih =>
    rw [life_concat] at hl
    obtain ⟨l₀,hl₀,hn⟩ := Option.bind_eq_some_iff.mp hl
    have hcount := ih hl₀
    have hstep := Life.next_count hn
    rw [List.countP_append, List.countP_append, List.countP_singleton, List.countP_singleton]
    omega

/-- From `on_close` on nothing is outstanding. -/
theorem life_done (hl : life sendsFirst h = some l) (hr : 6 ≤ l.stage.rank) :
    l.outstanding = 0 := by
  induction h using List.reverseRecOn generalizing l with
  | nil =>
    cases hl
    rfl
  | append_singleton h e ih =>
    rw [life_concat] at hl
    obtain ⟨l₀,hl₀,hn⟩ := Option.bind_eq_some_iff.mp hl
    by_cases he : e.ends = 0
    · rcases Life.next_stage hn he with hlive | hsame
      · have := Stage.rank_of_live hlive
        omega
      · rw [hsame] at hr
        have hzero := ih hl₀ hr
        have hcount := Life.next_count hn
        cases hs : e.starts with
        | false =>
          rw [hs, if_neg Bool.false_ne_true] at hcount
          omega
        | true =>
          cases e with
          | started s op =>
            simp only [Life.next, Option.ite_none_right_eq_some] at hn
            have := Stage.rank_of_live hn.1
            omega
          | _ => cases hs
    · obtain ⟨_,_,hsame,hzero | hdone⟩ := Life.ends hn he
      · exact hsame.trans hzero
      · exact hsame.trans (ih hl₀ hdone)

/-- When the end begins, or goes on, nothing is outstanding. -/
theorem idle_before (hl : life sendsFirst (h₁ ++ e :: h₂) = some l) (he : e.ends ≠ 0) :
    Idle h₁ := by
  obtain ⟨l₁,l₂,hl₁,hn,_⟩ := life_split hl
  have hzero : l₁.outstanding = 0 := by
    obtain ⟨_,_,_,hzero | hdone⟩ := Life.ends hn he
    · exact hzero
    · exact life_done hl₁ hdone
  have hcount := life_count hl₁
  rw [hzero] at hcount
  exact hcount

theorem Life.next_sendsFirst (hn : l.next sendsFirst e = some l') (hr : 1 ≤ l.stage.rank) :
    l'.sendsFirst = l.sendsFirst := by
  obtain ⟨first,stage,n⟩ := l
  cases e with
  | accepted s uid svc =>
    cases stage <;> cases hn
    exact absurd hr (Nat.not_succ_le_zero 0)
  | called s uid k =>
    rw [Life.call_eq hn]
  | assigned s ok =>
    cases stage <;> cases hn
    rfl
  | completed s op bytes =>
    cases n with
    | zero => cases hn
    | succ n =>
      simp only [Life.next, Option.ite_none_right_eq_some, Option.some.injEq] at hn
      obtain ⟨_,rfl⟩ := hn
      rfl
  | closesocket s =>
    cases n <;> cases stage <;> cases hn <;> rfl
  | freed s slot =>
    cases stage <;> cases hn
    rfl
  | started s op =>
    simp only [Life.next, Option.ite_none_right_eq_some, Option.some.injEq] at hn
    obtain ⟨_,rfl⟩ := hn
    rfl
  | cancelled s all =>
    simp only [Life.next, Option.ite_none_right_eq_some, Option.some.injEq] at hn
    obtain ⟨_,rfl⟩ := hn
    rfl
  | _ =>
    cases hn
    rfl

/-- What `accepted` says of a connection stays so. -/
theorem life_sendsFirst {svc : ℕ} {uid : UInt32} (hl : life sendsFirst h = some l)
    (hm : .accepted s uid svc ∈ h) : l.sendsFirst = sendsFirst svc := by
  obtain ⟨h₁,h₂,rfl⟩ := List.append_of_mem hm
  obtain ⟨l₁,l₂,_,hn,hrest⟩ := life_split hl
  have hstart : l₂.sendsFirst = sendsFirst svc ∧ 1 ≤ l₂.stage.rank := by
    obtain ⟨first,stage,n⟩ := l₁
    cases stage <;> cases hn
    exact ⟨rfl,Nat.le_refl 1⟩
  rw [← hstart.1]
  have hkeep : ∀ {h : List ConnEvent} {l₂ l : Life}, 1 ≤ l₂.stage.rank →
      h.foldlM (Life.next sendsFirst) l₂ = some l → l.sendsFirst = l₂.sendsFirst := by
    intro h
    induction h with
    | nil =>
      intro l₂ l _ hl
      cases hl
      rfl
    | cons e h ih =>
      intro l₂ l hr hl
      obtain ⟨l₃,hn,hl⟩ := Option.bind_eq_some_iff.mp hl
      rw [ih (Nat.le_trans hr (Life.rank_le hn)) hl]
      exact Life.next_sendsFirst hn hr
  exact hkeep hstart.2 hrest

end End

/-! ## The order of the callbacks -/

/-- The callbacks that assign a protocol. -/
def opening (first : Bool) : List Callback := if first then [.assign,.connect] else [.assign]

/-- The callbacks of an open connection, before and after its first message. -/
inductive Talk : Bool → List Callback → Prop
  | quiet {ws : List Callback} : (∀ k ∈ ws, k = .write) → Talk false ws
  | heard {ws rs : List Callback} {body : List UInt8} : (∀ k ∈ ws, k = .write) →
      (∀ k ∈ rs, k = .write ∨ ∃ b, k = .recv b) → Talk true (ws ++ .recvFirst body :: rs)

/-- The callbacks of a closed connection. -/
inductive Closed (first : Bool) : List Callback → List Bool → Prop
  | unassigned : Closed first [] []
  /-- closed by `on_assign_protocol` itself -/
  | withdrawn : Closed first [.assign,.close] []
  | refused : Closed first [.assign,.close] [false]
  | opened {ks : List Callback} {heard : Bool} : Talk heard ks →
      Closed first (opening first ++ (ks ++ [.close])) [true]

/-- The callbacks and the answers behind a stage. -/
def Describes (l : Life) (ks : List Callback) (as : List Bool) : Prop :=
  match l.stage with
  | .absent | .fresh => ks = [] ∧ as = []
  | .asking => ks = [.assign] ∧ as = []
  | .answered ok => ks = [.assign] ∧ as = [ok]
  | .opened heard => as = [true] ∧ ∃ rest, ks = opening l.sendsFirst ++ rest ∧ Talk heard rest
  | .closed | .shut | .gone => Closed l.sendsFirst ks as

section Order
variable {sendsFirst : ℕ → Bool} {l l' : Life} {ks : List Callback} {as : List Bool}
  {e : ConnEvent} {k : Callback}

theorem Talk.write {heard : Bool} (h : Talk heard ks) : Talk heard (ks ++ [.write]) := by
  cases h with
  | quiet hw =>
    refine .quiet ?_
    intro k hk
    rcases List.mem_append.mp hk with hk | hk
    · exact hw k hk
    · exact List.mem_singleton.mp hk
  | heard hw hr =>
    rw [List.append_assoc, List.cons_append]
    refine .heard hw ?_
    intro k hk
    rcases List.mem_append.mp hk with hk | hk
    · exact hr k hk
    · exact .inl (List.mem_singleton.mp hk)

theorem Talk.recv (h : Talk true ks) (body : List UInt8) : Talk true (ks ++ [.recv body]) := by
  cases h with
  | heard hw hr =>
    rw [List.append_assoc, List.cons_append]
    refine .heard hw ?_
    intro k hk
    rcases List.mem_append.mp hk with hk | hk
    · exact hr k hk
    · exact .inr ⟨body,List.mem_singleton.mp hk⟩

theorem Talk.recvFirst (h : Talk false ks) (body : List UInt8) :
    Talk true (ks ++ [.recvFirst body]) := by
  cases h with
  | quiet hw => exact .heard hw (fun _ hk => absurd hk List.not_mem_nil)

theorem talk_nil : Talk false [] := .quiet (fun _ hk => absurd hk List.not_mem_nil)

theorem Describes.call (h : Describes l ks as) (hn : l.call k = some l') :
    Describes l' (ks ++ [k]) as := by
  obtain ⟨first,stage,n⟩ := l
  cases k with
  | assign =>
    cases stage <;> cases hn
    obtain ⟨rfl,rfl⟩ := h
    exact ⟨rfl,rfl⟩
  | connect =>
    cases stage with
    | answered ok =>
      cases ok <;> cases first <;> cases hn
      obtain ⟨rfl,rfl⟩ := h
      exact ⟨rfl,[],rfl,talk_nil⟩
    | _ => cases hn
  | recvFirst body =>
    cases stage with
    | answered ok =>
      cases ok <;> cases first <;> cases hn
      obtain ⟨rfl,rfl⟩ := h
      exact ⟨rfl,[.recvFirst body],rfl,talk_nil.recvFirst body⟩
    | opened heard =>
      cases heard <;> cases hn
      obtain ⟨rfl,rest,rfl,ht⟩ := h
      exact ⟨rfl,rest ++ [.recvFirst body],List.append_assoc _ _ _,ht.recvFirst body⟩
    | _ => cases hn
  | recv body =>
    cases stage with
    | opened heard =>
      cases heard <;> cases hn
      obtain ⟨rfl,rest,rfl,ht⟩ := h
      exact ⟨rfl,rest ++ [.recv body],List.append_assoc _ _ _,ht.recv body⟩
    | _ => cases hn
  | write =>
    cases stage with
    | opened heard =>
      cases hn
      obtain ⟨rfl,rest,rfl,ht⟩ := h
      exact ⟨rfl,rest ++ [.write],List.append_assoc _ _ _,ht.write⟩
    | _ => cases hn
  | close =>
    cases stage with
    | asking =>
      cases n <;> cases hn
      obtain ⟨rfl,rfl⟩ := h
      exact Closed.withdrawn
    | answered ok =>
      cases ok <;> cases n <;> cases hn
      obtain ⟨rfl,rfl⟩ := h
      exact Closed.refused
    | opened heard =>
      cases n <;> cases hn
      obtain ⟨rfl,rest,rfl,ht⟩ := h
      rw [List.append_assoc]
      exact Closed.opened ht
    | _ => cases hn

theorem Describes.next (h : Describes l ks as) (hn : l.next sendsFirst e = some l') :
    Describes l' (ks ++ calls [e]) (as ++ answers [e]) := by
  have hsame : ∀ {l₁ : Life}, l₁.sendsFirst = l.sendsFirst → l₁.stage = l.stage →
      Describes l₁ (ks ++ []) (as ++ []) := by
    intro l₁ hf hs
    rw [List.append_nil, List.append_nil]
    unfold Describes at h ⊢
    rw [hf, hs]
    exact h
  cases e with
  | called s uid k => exact (List.append_nil as).symm ▸ h.call hn
  | accepted s uid svc =>
    obtain ⟨first,stage,n⟩ := l
    cases stage <;> cases hn
    obtain ⟨rfl,rfl⟩ := h
    exact ⟨rfl,rfl⟩
  | assigned s ok =>
    obtain ⟨first,stage,n⟩ := l
    cases stage <;> cases hn
    obtain ⟨rfl,rfl⟩ := h
    exact ⟨rfl,rfl⟩
  | returned s k st =>
    cases hn
    exact hsame rfl rfl
  | asked s =>
    cases hn
    exact hsame rfl rfl
  | faulted s =>
    cases hn
    exact hsame rfl rfl
  | started s op =>
    simp only [Life.next, Option.ite_none_right_eq_some, Option.some.injEq] at hn
    obtain ⟨_,rfl⟩ := hn
    exact hsame rfl rfl
  | completed s op bytes =>
    simp only [Life.next] at hn
    split at hn
    case h_1 => cases hn
    case h_2 =>
      simp only [Option.ite_none_right_eq_some, Option.some.injEq] at hn
      obtain ⟨_,rfl⟩ := hn
      exact hsame rfl rfl
  | cancelled s all =>
    simp only [Life.next, Option.ite_none_right_eq_some, Option.some.injEq] at hn
    obtain ⟨_,rfl⟩ := hn
    exact hsame rfl rfl
  | closesocket s =>
    obtain ⟨first,stage,n⟩ := l
    cases stage with
    | fresh =>
      cases n <;> cases hn
      obtain ⟨rfl,rfl⟩ := h
      exact Closed.unassigned
    | closed =>
      cases n <;> cases hn
      change Closed first (ks ++ []) (as ++ [])
      rw [List.append_nil, List.append_nil]
      exact h
    | _ => cases hn
  | freed s slot =>
    obtain ⟨first,stage,n⟩ := l
    cases stage <;> cases hn
    change Closed first (ks ++ []) (as ++ [])
    rw [List.append_nil, List.append_nil]
    exact h

theorem describes_life {h : List ConnEvent} (hl : life sendsFirst h = some l) :
    Describes l (calls h) (answers h) := by
  induction h using List.reverseRecOn generalizing l with
  | nil =>
    cases hl
    exact ⟨rfl,rfl⟩
  | append_singleton h e ih =>
    rw [life_concat] at hl
    obtain ⟨l₀,hl₀,hn⟩ := Option.bind_eq_some_iff.mp hl
    rw [calls_append, answers_append]
    exact (ih hl₀).next hn

end Order

def Callback.isFirst : Callback → Bool
  | .recvFirst _ => true
  | _ => false

def Callback.isMessage : Callback → Bool
  | .recvFirst _ | .recv _ => true
  | _ => false

/-- The order a protocol is promised for the callbacks of one connection. -/
structure CallbackOrder (first : Bool) (ks : List Callback) (as : List Bool) : Prop where
  /-- `on_assign_protocol` comes first and once -/
  assign : ks = [] ∨ ∃ rest, ks = .assign :: rest ∧ .assign ∉ rest
  /-- `on_connect` comes next and once where the service sends first and the protocol accepted -/
  connect : first = true → as = [true] → ∃ rest, ks = .assign :: .connect :: rest ∧ .connect ∉ rest
  noConnect : ¬ (first = true ∧ as = [true]) → .connect ∉ ks
  /-- no message comes before the one given to `on_recv_first_message` -/
  recvFirst : ks.Pairwise (fun k k' => k'.isFirst = true → k.isMessage = false)
  recv : ∀ b, .recv b ∈ ks → ∃ b', .recvFirst b' ∈ ks
  /-- nothing comes after `on_close` -/
  close : ks.Pairwise (fun k _ => k ≠ .close)
  closeAssigned : .close ∈ ks → .assign ∈ ks

section Promise
variable {first heard : Bool} {ks : List Callback} {as : List Bool}

theorem Talk.mem (h : Talk heard ks) {k : Callback} (hk : k ∈ ks) :
    k = .write ∨ k.isMessage = true := by
  cases h with
  | quiet hw => exact .inl (hw k hk)
  | heard hw hr =>
    rcases List.mem_append.mp hk with hk | hk
    · exact .inl (hw k hk)
    · rcases List.mem_cons.mp hk with rfl | hk
      · exact .inr rfl
      · rcases hr k hk with h | ⟨b,rfl⟩
        · exact .inl h
        · exact .inr rfl

theorem Talk.recvFirst_pairwise (h : Talk heard ks) :
    ks.Pairwise (fun k k' => k'.isFirst = true → k.isMessage = false) := by
  have hall : ∀ {l : List Callback}, (∀ k ∈ l, k.isFirst = false) →
      l.Pairwise (fun k k' => k'.isFirst = true → k.isMessage = false) := by
    intro l hl
    refine List.pairwise_of_forall_mem_list ?_
    intro k _ k' hk' hf
    rw [hl k' hk'] at hf
    cases hf
  cases h with
  | quiet hw => exact hall (fun k hk => by rw [hw k hk]; rfl)
  | heard hw hr =>
    refine List.pairwise_append.mpr ⟨hall (fun k hk => by rw [hw k hk]; rfl),?_,?_⟩
    · refine List.pairwise_cons.mpr ⟨?_,hall ?_⟩
      · intro k' hk' hf
        rcases hr k' hk' with rfl | ⟨b,rfl⟩ <;> cases hf
      · intro k hk
        rcases hr k hk with rfl | ⟨b,rfl⟩ <;> rfl
    · intro k hk k' _ _
      rw [hw k hk]
      rfl

theorem Talk.exists_recvFirst (h : Talk heard ks) {b : List UInt8} (hb : .recv b ∈ ks) :
    ∃ b', .recvFirst b' ∈ ks := by
  cases h with
  | quiet hw => cases hw _ hb
  | heard hw hr => exact ⟨_,List.mem_append_right _ List.mem_cons_self⟩

theorem Talk.notMem (h : Talk heard ks) : .assign ∉ ks ∧ .connect ∉ ks ∧ .close ∉ ks := by
  refine ⟨?_,?_,?_⟩
  all_goals
    intro hm
    rcases h.mem hm with hk | hk <;> cases hk

theorem Talk.connect_notMem (h : Talk heard ks) : .connect ∉ ks ++ [.close] := by
  intro hm
  rcases List.mem_append.mp hm with hm | hm
  · exact h.notMem.2.1 hm
  · cases List.mem_singleton.mp hm

/-- What follows the assignment and the greeting. -/
theorem order_of_tail {tail : List Callback} (ha : .assign ∉ tail) (hc : .connect ∉ tail)
    (hf : tail.Pairwise (fun k k' => k'.isFirst = true → k.isMessage = false))
    (hr : ∀ b, .recv b ∈ tail → ∃ b', .recvFirst b' ∈ tail)
    (hclose : tail.Pairwise (fun k _ => k ≠ .close)) :
    CallbackOrder first (opening first ++ tail) [true] := by
  have hskip : ∀ {k : Callback}, k ≠ .assign → k ≠ .connect →
      (k ∈ opening first ++ tail ↔ k ∈ tail) := by
    intro k hka hkc
    rw [List.mem_append]
    refine or_iff_right ?_
    intro hm
    cases first <;> simp [opening, hka, hkc] at hm
  refine ⟨.inr ?_,?_,?_,?_,?_,?_,?_⟩
  · cases first with
    | false => exact ⟨tail,rfl,ha⟩
    | true => exact ⟨.connect :: tail,rfl,fun hm => ha ((List.mem_cons.mp hm).resolve_left nofun)⟩
  · rintro rfl _
    exact ⟨tail,rfl,hc⟩
  · intro hn hm
    cases first with
    | false => exact hc ((List.mem_cons.mp hm).resolve_left nofun)
    | true => exact hn ⟨rfl,rfl⟩
  · refine List.pairwise_append.mpr ⟨by cases first <;> simp [opening, Callback.isMessage],hf,?_⟩
    intro k hk k' _ _
    cases first <;> simp [opening] at hk
    · rw [hk]
      rfl
    · rcases hk with rfl | rfl <;> rfl
  · intro b hb
    obtain ⟨b',hb'⟩ := hr b ((hskip (k := .recv b) nofun nofun).mp hb)
    exact ⟨b',(hskip (k := .recvFirst b') nofun nofun).mpr hb'⟩
  · refine List.pairwise_append.mpr ⟨by cases first <;> simp [opening],hclose,?_⟩
    intro k hk k' _
    cases first <;> simp [opening] at hk
    · rw [hk]
      exact nofun
    · rcases hk with rfl | rfl <;> exact nofun
  · intro _
    cases first <;> exact List.mem_append_left _ List.mem_cons_self

theorem Talk.order (h : Talk heard ks) : CallbackOrder first (opening first ++ ks) [true] := by
  obtain ⟨ha,hc,hclose⟩ := h.notMem
  refine order_of_tail ha hc h.recvFirst_pairwise (fun b hb => h.exists_recvFirst hb) ?_
  exact List.pairwise_of_forall_mem_list (fun k hk _ _ he => hclose (he ▸ hk))

theorem Talk.closed_order (h : Talk heard ks) :
    CallbackOrder first (opening first ++ (ks ++ [.close])) [true] := by
  obtain ⟨ha,hc,hclose⟩ := h.notMem
  refine order_of_tail ?_ h.connect_notMem ?_ ?_ ?_
  · intro hm
    rcases List.mem_append.mp hm with hm | hm
    · exact ha hm
    · cases List.mem_singleton.mp hm
  · refine List.pairwise_append.mpr ⟨h.recvFirst_pairwise,List.pairwise_singleton _ _,?_⟩
    intro k _ k' hk' hf
    rw [List.mem_singleton.mp hk'] at hf
    cases hf
  · intro b hb
    rcases List.mem_append.mp hb with hb | hb
    · obtain ⟨b',hb'⟩ := h.exists_recvFirst hb
      exact ⟨b',List.mem_append_left _ hb'⟩
    · cases List.mem_singleton.mp hb
  · refine List.pairwise_append.mpr ⟨?_,List.pairwise_singleton _ _,?_⟩
    · exact List.pairwise_of_forall_mem_list (fun k hk _ _ he => hclose (he ▸ hk))
    · exact fun k hk k' _ he => hclose (he ▸ hk)

/-- A protocol that has just accepted a connection still has its greeting to come. -/
theorem Describes.order {l : Life} {as : List Bool} (hd : Describes l ks as)
    (hst : l.stage ≠ .answered true) : CallbackOrder l.sendsFirst ks as := by
  obtain ⟨first,stage,n⟩ := l
  have hnone : CallbackOrder first [] [] :=
    ⟨.inl rfl,fun _ => nofun,fun _ => nofun,.nil,fun _ => nofun,.nil,nofun⟩
  have hassign : ∀ {as : List Bool}, as ≠ [true] → CallbackOrder first [.assign] as := by
    intro as has
    exact ⟨.inr ⟨[],rfl,nofun⟩,fun _ h => absurd h has,fun _ => by simp,List.pairwise_singleton _ _,
      fun _ => by simp,List.pairwise_singleton _ _,by simp⟩
  have hrefused : ∀ {as : List Bool}, as ≠ [true] → CallbackOrder first [.assign,.close] as := by
    intro as has
    exact ⟨.inr ⟨[.close],rfl,by simp⟩,fun _ h => absurd h has,fun _ => by simp,
      by simp [Callback.isFirst],fun _ => by simp,by simp,by simp⟩
  have hclosed : Closed first ks as → CallbackOrder first ks as := by
    intro hc
    cases hc with
    | unassigned => exact hnone
    | withdrawn => exact hrefused nofun
    | refused => exact hrefused (by decide)
    | opened ht => exact ht.closed_order
  cases stage with
  | absent =>
    obtain ⟨rfl,rfl⟩ := hd
    exact hnone
  | fresh =>
    obtain ⟨rfl,rfl⟩ := hd
    exact hnone
  | asking =>
    obtain ⟨rfl,rfl⟩ := hd
    exact hassign nofun
  | answered ok =>
    obtain ⟨rfl,rfl⟩ := hd
    cases ok with
    | false => exact hassign (by decide)
    | true => exact absurd rfl hst
  | opened heard =>
    obtain ⟨rfl,rest,rfl,ht⟩ := hd
    exact ht.order
  | closed => exact hclosed hd
  | shut => exact hclosed hd
  | gone => exact hclosed hd

end Promise

end Kaplar.Server
