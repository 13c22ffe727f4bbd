import Kaplar.Crypto.AdlerDistance
import Kaplar.Protocol.OwnershipRun

/-! # Damaged login messages

The login protocol takes only messages behind their checksum. Messages it takes differ from each
other in three bytes at least, so that a message of which one or two bytes have been damaged,
in its body or in the checksum itself, never comes to it.
-/
namespace Kaplar.Protocol
open Kaplar.Crypto Kaplar.Server
variable {E : Setting} {D : Deployment} {m m' l : List UInt8} {b₀ b₁ b₂ b₃ : UInt8}

namespace Login

/-- The checksum in front of a body says what its sums are. -/
theorem sums_of_identify (h : identify (b₀ :: b₁ :: b₂ :: b₃ :: l) = true) :
    (adlerSums l).1 = b₀.toNat + b₁.toNat * 2 ^ 8 ∧
      (adlerSums l).2 = b₂.toNat + b₃.toNat * 2 ^ 8 := by
  rw [identify, Bool.and_eq_true, Bool.and_eq_true, beq_iff_eq] at h
  have hsum : (adler32 l).toNat = (u32le b₀ b₁ b₂ b₃).toNat := congrArg UInt32.toNat h.1.2
  rw [toNat_adler32, toNat_u32le] at hsum
  have hred := adlerSums_reduced l
  have h₀ := b₀.toNat_lt
  have h₁ := b₁.toNat_lt
  have h₂ := b₂.toNat_lt
  have h₃ := b₃.toNat_lt
  omega

theorem exists_checksum (h : identify m = true) :
    ∃ b₀ b₁ b₂ b₃ l, m = b₀ :: b₁ :: b₂ :: b₃ :: l := by
  rw [identify, Bool.and_eq_true, Bool.and_eq_true, decide_eq_true_iff] at h
  obtain ⟨⟨hlen,-⟩,-⟩ := h
  match m, hlen with
  | b₀ :: b₁ :: b₂ :: b₃ :: l, _ => exact ⟨b₀,b₁,b₂,b₃,l,rfl⟩

/-- Two messages of the login protocol differ in three bytes at least. -/
theorem identify_apart (h : identify m = true) (h' : identify m' = true)
    (hl : m.length = m'.length) (hb : m.length ≤ connInputBufferSize) (hne : m ≠ m') :
    3 ≤ apart m m' := by
  obtain ⟨b₀,b₁,b₂,b₃,l,rfl⟩ := exists_checksum h
  obtain ⟨c₀,c₁,c₂,c₃,l',rfl⟩ := exists_checksum h'
  obtain ⟨hlow,hhigh⟩ := sums_of_identify h
  obtain ⟨hlow',hhigh'⟩ := sums_of_identify h'
  simp only [List.length_cons] at hl hb
  have hlen : l.length = l'.length := by omega
  have hshort : l.length < 65521 := by
    unfold connInputBufferSize at hb
    omega
  simp only [apart_cons, ne_eq, ite_not]
  by_contra hlt
  -- the body differs in two bytes at most
  obtain h0 | h1 | h2 : apart l l' = 0 ∨ apart l l' = 1 ∨ apart l l' = 2 := by omega
  · obtain rfl := eq_of_apart hlen h0
    refine hne ?_
    have hbytes (b c : UInt8) (he : b.toNat = c.toNat) : b = c := UInt8.toNat_inj.mp he
    have h₀ := b₀.toNat_lt
    have h₁ := c₀.toNat_lt
    have h₂ := b₂.toNat_lt
    have h₃ := c₂.toNat_lt
    rw [hbytes b₀ c₀ (by omega), hbytes b₁ c₁ (by omega), hbytes b₂ c₂ (by omega),
      hbytes b₃ c₃ (by omega)]
  · obtain ⟨hfst,hsnd⟩ := adlerSums_of_one hlen hshort h1
    have hleft : ¬ (b₀ = c₀ ∧ b₁ = c₁) := by
      rintro ⟨rfl,rfl⟩
      exact hfst (hlow.trans hlow'.symm)
    have hright : ¬ (b₂ = c₂ ∧ b₃ = c₃) := by
      rintro ⟨rfl,rfl⟩
      exact hsnd (hhigh.trans hhigh'.symm)
    rw [h1] at hlt
    split_ifs at hlt <;> first | omega | exact hleft ⟨‹_›,‹_›⟩ | exact hright ⟨‹_›,‹_›⟩
  · have hsame : b₀ = c₀ ∧ b₁ = c₁ ∧ b₂ = c₂ ∧ b₃ = c₃ := by
      rw [h2] at hlt
      split_ifs at hlt <;> first | omega | exact ⟨‹_›,‹_›,‹_›,‹_›⟩
    obtain ⟨rfl,rfl,rfl,rfl⟩ := hsame
    exact adlerSums_of_two hlen hshort h2
      (Prod.ext (hlow.trans hlow'.symm) (hhigh.trans hhigh'.symm))

end Login

/-- A service gives its login protocol the messages this one identifies. -/
theorem identify_of_select {svc n : ℕ}
    (h : (services E D).serviceSelectProtocol svc m = some n) (hk : D.kind n = .login) :
    Login.identify m = true := by
  have hfound := List.find?_some h
  change ((D.kind n).protocol E).identify m = true at hfound
  rw [hk] at hfound
  exact hfound

/-- One or two damaged bytes keep a login message away from the login protocol, whatever
service it comes to. -/
theorem damagedLogin_notSelected {svc svc' n n' : ℕ}
    (h : (services E D).serviceSelectProtocol svc m = some n) (hk : D.kind n = .login)
    (hb : m.length ≤ connInputBufferSize) (hl : m'.length = m.length)
    (hd : apart m m' = 1 ∨ apart m m' = 2) (hk' : D.kind n' = .login) :
    (services E D).serviceSelectProtocol svc' m' ≠ some n' := by
  intro h'
  have hne : m ≠ m' := by
    rintro rfl
    rw [apart_self] at hd
    omega
  have hfar := Login.identify_apart (identify_of_select h hk) (identify_of_select h' hk') hl.symm hb
    hne
  omega

/-- A login message whose checksum and body have lost a bit each. -/
theorem damagedLogin_notSelected_twice : (services crowded onlyLogins).serviceSelectProtocol 0
    ((loginMessage.set 0 0x60).set 7 0x5D) ≠ some 0 :=
  have hsent : (services crowded onlyLogins).serviceSelectProtocol 0 loginMessage = some 0 := by
    decide +kernel
  damagedLogin_notSelected hsent rfl (by decide +kernel) (by decide +kernel)
    (.inr (by decide +kernel)) rfl

end Kaplar.Protocol
