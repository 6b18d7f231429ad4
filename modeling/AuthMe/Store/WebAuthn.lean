import AuthMe.Store.Admin

/-!
# Passkeys

The tables `webauthn_credentials` and `webauthn_challenges` of the identity store and the
operations on one row of them (`src/src/repositories/identity-store.js`). The columns that
no modelled function reads are left out.
-/

namespace AuthMe.Store

/-- A signature counter, between 0 and `0xffff_ffff`. -/
structure Counter where
  value : Nat
  le : value ≤ 0xffffffff
  deriving DecidableEq

structure Credential where
  realm : String
  userId : String
  id : String
  userHandle : String
  publicKey : String
  counter : Counter
  deviceType : String := "singleDevice"
  backedUp : Bool := false
  deriving DecidableEq

inductive Purpose
  | authentication
  | registration
  deriving DecidableEq

/-- The arguments of `createWebAuthnChallenge`. -/
structure ChallengeInput where
  realm : String
  purpose : Purpose
  userId : Option String
  interactionUid : Option String
  userHandle : Option String
  challenge : String
  expiresAt : Int
  deriving DecidableEq

structure Challenge extends ChallengeInput where
  id : String
  deriving DecidableEq

/-- What `consumeWebAuthnChallenge` asks of a challenge. -/
structure ChallengeQuery where
  realm : String
  id : String
  purpose : Purpose
  userId : Option String
  interactionUid : Option String
  deriving DecidableEq

/-- The challenge is the one that is asked for, and has not expired. -/
def Challenge.answers (c : Challenge) (q : ChallengeQuery) (now : Instant) : Bool :=
  c.purpose = q.purpose && c.userId = q.userId && c.interactionUid = q.interactionUid &&
    now.ms < c.expiresAt

/-- The result of a verified assertion. `newCounter` is the counter that is signed. -/
structure Verification where
  newCounter : Int
  deviceType : String
  backedUp : Bool
  deriving DecidableEq

/-- `(expectedCounter > 0 || newCounter > 0) && newCounter <= expectedCounter` is a clone. -/
def isClone (expectedCounter : Nat) (newCounter : Int) : Bool :=
  (0 < expectedCounter || 0 < newCounter) && newCounter ≤ expectedCounter

/-- `updateWebAuthnCredentialCounter` on a credential; `none` when it answers `false`. -/
def Credential.updateCounter (c : Credential) (expectedCounter : Nat) (v : Verification) :
    Option Credential :=
  if hok : c.counter.value = expectedCounter ∧ 0 ≤ v.newCounter ∧ v.newCounter ≤ 0xffffffff ∧
      isClone expectedCounter v.newCounter = false then
    some { c with
      counter := ⟨v.newCounter.toNat, by omega⟩
      deviceType := v.deviceType
      backedUp := v.backedUp }
  else none

/-- A counter that is accepted is the one that was signed. It is larger than the one before
it, unless both are 0. -/
theorem Credential.counter_of_update {c c' : Credential} {expectedCounter : Nat}
    {v : Verification} (h : c.updateCounter expectedCounter v = some c') :
    (c'.counter.value : Int) = v.newCounter ∧
      (c.counter.value < c'.counter.value ∨ c.counter.value = 0 ∧ c'.counter.value = 0) := by
  unfold updateCounter at h
  by_cases hok : c.counter.value = expectedCounter ∧ 0 ≤ v.newCounter ∧
      v.newCounter ≤ 0xffffffff ∧ isClone expectedCounter v.newCounter = false
  · rw [dif_pos hok] at h
    cases h
    obtain ⟨hcounter, hnonneg, -, hclone⟩ := hok
    have hvalue : ((v.newCounter.toNat : Nat) : Int) = v.newCounter := Int.toNat_of_nonneg hnonneg
    refine ⟨hvalue, ?_⟩
    simp only [isClone, Bool.and_eq_false_iff, Bool.or_eq_false_iff, decide_eq_false_iff_not]
      at hclone
    dsimp only
    omega
  · rw [dif_neg hok] at h
    cases h

end AuthMe.Store
