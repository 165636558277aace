import ChainGuard.Evm.Contract

/-! The registered encryption keys seen from one account. Possession of a key is read off the caller's
own entry, and anybody may enter any key: what a stranger can blacklist is every key that it can
rotate away from. -/
namespace ChainGuard.Evm
open Guarded History
set_option autoImplicit false

variable {L : Type} {chain : Chain} {nft : ERC721 L} {env : Env} {s s' : State L} {account : Address}
  {later : List (Transition (State L) Invocation)}

/-! ## Calls of strangers -/

def Call.rotates : Call → Bool
  | .keys (.registerPublicKey _) | .keys (.revokeKey ..) => true
  | _ => false

/-- Somebody else registers or revokes a key. -/
def RotatedByStranger (account : Address) (t : Transition (State L) Invocation) : Prop :=
  t.label.1.sender ≠ account ∧ t.label.2.rotates = true

instance : DecidablePred (RotatedByStranger (L := L) account) := fun _ =>
  inferInstanceAs (Decidable (_ ∧ _))

/-- What such a call does: it enters a key for its sender, or the sender leaves its key for another
one and the lock is free. -/
inductive RotationEffect (chain : Chain) (env : Env) (s s' : State L) : Prop
  | entered : s'.keys.revokedKeyHashes = s.keys.revokedKeyHashes → RotationEffect chain env s s'
  | revoked (old new : Bytes) : s.frame = none → new ≠ [] →
      chain.keccak256 old ≠ chain.keccak256 new → isKeyRevoked chain s new = false →
      s'.keys.revokedKeyHashes =
        Function.update s.keys.revokedKeyHashes (chain.keccak256 old) true → RotationEffect chain env s s'

/-- Only the sender's own entry changes, and nothing but the keys. -/
structure KeepsKeyOf (account : Address) (s s' : State L) : Prop where
  key : s'.keys.userPublicKeys account = s.keys.userPublicKeys account
  frame : s'.frame = s.frame

theorem Steps.rotation_effect {i : Invocation} (h : Steps chain nft s i s')
    (hstranger : RotatedByStranger account ⟨s, i, s'⟩) :
    RotationEffect chain i.1 s s' ∧ KeepsKeyOf account s s' := by
  obtain ⟨env, call⟩ := i
  obtain ⟨hother, hrotates⟩ := hstranger
  simp only [Steps, exec, revertIf_bind] at h
  obtain ⟨hlock, hbody⟩ := h
  dsimp only at hother hrotates
  unfold Call.rotates at hrotates
  split at hrotates
  · next publicKey =>
    simp only [execBody, execKeys, bind_ok, pure_ok] at hbody
    obtain ⟨⟨keys, logs⟩, hkeys, rfl⟩ := hbody
    simp only [registerPublicKey, revertIf_bind, pure_ok, Prod.mk.injEq] at hkeys
    obtain ⟨_, rfl, _⟩ := hkeys
    exact ⟨.entered rfl, Function.update_of_ne (Ne.symm hother) .., rfl⟩
  · next old new =>
    have hfree : s.frame = none := by
      by_contra hframe
      exact hlock ⟨rfl, hframe⟩
    simp only [execBody, execKeys, bind_ok, pure_ok] at hbody
    obtain ⟨⟨keys, logs⟩, hkeys, rfl⟩ := hbody
    simp only [revokeKey, revertIf_bind, pure_ok, Prod.mk.injEq, List.length_eq_zero_iff] at hkeys
    obtain ⟨hnonempty, hne, hnew, _, _, rfl, _⟩ := hkeys
    have hnew : isKeyRevoked chain s new = false := Bool.eq_false_iff.mpr hnew
    exact ⟨.revoked old new hfree hnonempty hne hnew rfl, Function.update_of_ne (Ne.symm hother) .., rfl⟩
  · cases hrotates

/-! ## What strangers can do to a key -/

/-- No key is left that one could rotate to from this one. -/
def NoneLeft (chain : Chain) (s : State L) (publicKey : Bytes) : Prop :=
  ∀ other, other ≠ [] → chain.keccak256 other ≠ chain.keccak256 publicKey →
    isKeyRevoked chain s other = true

/-- Nobody else can revoke the key of the account, or stop its approvals by a revoked key. -/
def KeySafe (chain : Chain) (nft : ERC721 L) (s : State L) (account : Address) : Prop :=
  ∀ later s', RunFrom (Steps chain nft) s later s' → (∀ t ∈ later, RotatedByStranger account t) →
    (isKeyRevoked chain s' (s.keys.userPublicKeys account) = true →
      isKeyRevoked chain s (s.keys.userPublicKeys account) = true) ∧
    (checkGuardianKey chain s account = .ok () → checkGuardianKey chain s' account = .ok ())

theorem RotationEffect.revoked_mono (h : RotationEffect chain env s s') {publicKey : Bytes}
    (hrevoked : isKeyRevoked chain s publicKey = true) : isKeyRevoked chain s' publicKey = true := by
  cases h with
  | entered hsame =>
    rw [isKeyRevoked, hsame]
    exact hrevoked
  | revoked old new _ _ _ _ hupdate =>
    rw [isKeyRevoked, hupdate, Function.update_apply]
    split
    · rfl
    · exact hrevoked

theorem RotationEffect.kept (h : RotationEffect chain env s s') {publicKey : Bytes}
    (hstuck : s.frame ≠ none ∨ NoneLeft chain s publicKey) :
    isKeyRevoked chain s' publicKey = isKeyRevoked chain s publicKey := by
  cases h with
  | entered hsame => rw [isKeyRevoked, isKeyRevoked, hsame]
  | revoked old new hfree hnonempty hne hnew hupdate =>
    have hleft : NoneLeft chain s publicKey := hstuck.resolve_left fun h => h hfree
    have hsame : chain.keccak256 new = chain.keccak256 publicKey := by
      by_contra hdiff
      rw [hleft new hnonempty hdiff] at hnew
      cases hnew
    rw [isKeyRevoked, isKeyRevoked, hupdate, Function.update_of_ne]
    rw [← hsame]
    exact Ne.symm hne

theorem strangers_keep (hstuck : s.frame ≠ none ∨ NoneLeft chain s (s.keys.userPublicKeys account))
    (h : RunFrom (Steps chain nft) s later s') (hstrangers : ∀ t ∈ later, RotatedByStranger account t) :
    isKeyRevoked chain s' (s.keys.userPublicKeys account) =
        isKeyRevoked chain s (s.keys.userPublicKeys account) ∧
      (s'.frame ≠ none ∨ NoneLeft chain s' (s.keys.userPublicKeys account)) := by
  refine h.relates_of (R := fun _ s' => isKeyRevoked chain s' (s.keys.userPublicKeys account) =
      isKeyRevoked chain s (s.keys.userPublicKeys account) ∧
      (s'.frame ≠ none ∨ NoneLeft chain s' (s.keys.userPublicKeys account))) ?_ ?_ hstrangers
  · rintro x rfl
    exact ⟨rfl, hstuck⟩
  · intro hist x i x' _ ih hstranger hstep
    obtain ⟨heffect, hkeeps⟩ := hstep.rotation_effect hstranger
    refine ⟨(heffect.kept ih.2).trans ih.1, ?_⟩
    rcases ih.2 with hlocked | hleft
    · left
      rw [hkeeps.frame]
      exact hlocked
    · right
      intro other hnonempty hdiff
      exact heffect.revoked_mono (hleft other hnonempty hdiff)

theorem strangers_keep_key (h : RunFrom (Steps chain nft) s later s')
    (hstrangers : ∀ t ∈ later, RotatedByStranger account t) :
    s'.keys.userPublicKeys account = s.keys.userPublicKeys account := by
  refine h.relates_of (R := fun _ x => x.keys.userPublicKeys account = s.keys.userPublicKeys account)
    ?_ ?_ hstrangers
  · rintro x rfl
    rfl
  · intro hist x i x' _ ih hstranger hstep
    exact ((hstep.rotation_effect hstranger).2.key).trans ih

@[simp] theorem checkGuardianKey_ok :
    checkGuardianKey chain s account = .ok () ↔
      ¬ (s.keys.userPublicKeys account ≠ [] ∧
        isKeyRevoked chain s (s.keys.userPublicKeys account) = true) := by
  rw [checkGuardianKey, revertIf_ok, ne_eq, List.length_eq_zero_iff]
  rfl

/-! ## A stranger revokes a key -/

theorem keys_steps {c : KeysCall} {keys : Keys} {logs : List Event}
    (hlock : (Call.keys c).guarded = true → s.frame = none)
    (hexec : execKeys chain env s c = .ok (keys, logs)) :
    Steps chain nft s (env, .keys c) { s with keys, logs } := by
  simp only [Steps, exec, revertIf_bind]
  constructor
  · rintro ⟨hguarded, hframe⟩
    exact hframe (hlock hguarded)
  · simp only [execBody, bind_ok, pure_ok]
    exact ⟨(keys, logs), hexec, rfl⟩

theorem registerPublicKey_accepted (env : Env) {publicKey : Bytes} (h : isKeyRevoked chain s publicKey = false) :
    ∃ keys logs, execKeys chain env s (.registerPublicKey publicKey) = .ok (keys, logs) ∧
      keys.userPublicKeys env.sender = publicKey ∧
        keys.revokedKeyHashes = s.keys.revokedKeyHashes := by
  simp only [execKeys, registerPublicKey, revertIf_bind, pure_ok]
  refine ⟨_, _, ⟨?_, rfl⟩, Function.update_self .., rfl⟩
  exact Bool.eq_false_iff.mp h

theorem revokeKey_accepted {old new : Bytes} (hkey : s.keys.userPublicKeys env.sender = old)
    (hold : isKeyRevoked chain s old = false) (hnew : isKeyRevoked chain s new = false)
    (hne : chain.keccak256 old ≠ chain.keccak256 new) (hold' : old ≠ []) (hnew' : new ≠ []) :
    ∃ keys logs, execKeys chain env s (.revokeKey old new) = .ok (keys, logs) ∧
      keys.revokedKeyHashes (chain.keccak256 old) = true := by
  simp only [execKeys, revokeKey, revertIf_bind, pure_ok, List.length_eq_zero_iff, hkey, ne_eq,
    not_true_eq_false, or_false]
  refine ⟨_, _, ⟨hnew', hne, ?_, hold', ?_, rfl⟩, Function.update_self ..⟩
  · exact Bool.eq_false_iff.mp hnew
  · exact Bool.eq_false_iff.mp hold

def stranger (account : Address) : Address := if account = 1 then 2 else 1

theorem stranger_ne (account : Address) : stranger account ≠ account ∧ stranger account ≠ 0 := by
  unfold stranger
  split
  · next h =>
    subst h
    exact ⟨by decide, by decide⟩
  · next h => exact ⟨Ne.symm h, by decide⟩

theorem stranger_revokes (nft : ERC721 L) {publicKey other : Bytes} (hfree : s.frame = none) (hkey : publicKey ≠ [])
    (hfresh : isKeyRevoked chain s publicKey = false) (hother : other ≠ [])
    (hdiff : chain.keccak256 other ≠ chain.keccak256 publicKey)
    (hleft : isKeyRevoked chain s other = false) (account : Address) :
    ∃ later s', RunFrom (Steps chain nft) s later s' ∧ (∀ t ∈ later, RotatedByStranger account t) ∧
      isKeyRevoked chain s' publicKey = true := by
  obtain ⟨hne, hnonzero⟩ := stranger_ne account
  let env : Env := ⟨stranger account, 1, 1, hnonzero, Nat.one_pos⟩
  obtain ⟨keys, logs, hexec, hentered, hsame⟩ := registerPublicKey_accepted env hfresh
  have hregister : Steps chain nft s (env, .keys (.registerPublicKey publicKey)) { s with keys, logs } :=
    keys_steps (fun h => by cases h) hexec
  have hfresh' : isKeyRevoked chain { s with keys, logs } publicKey = false := by
    rw [← hfresh, isKeyRevoked, isKeyRevoked, hsame]
  have hleft' : isKeyRevoked chain { s with keys, logs } other = false := by
    rw [← hleft, isKeyRevoked, isKeyRevoked, hsame]
  obtain ⟨keys', logs', hexec', hrevoked⟩ := revokeKey_accepted (s := { s with keys, logs })
    hentered hfresh' hleft' (Ne.symm hdiff) hkey hother
  have hrevoke : Steps chain nft { s with keys, logs } (env, .keys (.revokeKey publicKey other))
      { s with keys := keys', logs := logs' } := keys_steps (fun _ => hfree) hexec'
  refine ⟨_, _, .next (.next (.start rfl) hregister) hrevoke, ?_, hrevoked⟩
  intro t ht
  rcases List.mem_cons.mp ht with rfl | ht
  · exact ⟨hne, rfl⟩
  · cases List.mem_singleton.mp ht
    exact ⟨hne, rfl⟩

/-- A registered key is safe from strangers exactly when it is revoked already, the lock is held, or
nothing is left to rotate to. -/
theorem keySafe_iff (hkey : s.keys.userPublicKeys account ≠ []) :
    KeySafe chain nft s account ↔ isKeyRevoked chain s (s.keys.userPublicKeys account) = true ∨
      s.frame ≠ none ∨ NoneLeft chain s (s.keys.userPublicKeys account) := by
  constructor
  · intro hsafe
    by_contra hcontra
    simp only [not_or, NoneLeft, not_forall, not_not] at hcontra
    obtain ⟨hfresh, hfree, other, hother, hdiff, hleft⟩ := hcontra
    obtain ⟨later, s', hrun, hstrangers, hrevoked⟩ := stranger_revokes nft hfree hkey
      (Bool.eq_false_iff.mpr hfresh) hother hdiff (Bool.eq_false_iff.mpr hleft) account
    exact hfresh ((hsafe later s' hrun hstrangers).1 hrevoked)
  · rintro (hrevoked | hstuck) later s' hrun hstrangers
    · refine ⟨fun _ => hrevoked, fun hok => ?_⟩
      exact absurd ⟨hkey, hrevoked⟩ (checkGuardianKey_ok.mp hok)
    · have hkept := (strangers_keep hstuck hrun hstrangers).1
      have hsame := strangers_keep_key hrun hstrangers
      refine ⟨fun h => by rwa [hkept] at h, fun hok => ?_⟩
      rw [checkGuardianKey_ok] at hok ⊢
      rwa [hsame, hkept]

end ChainGuard.Evm
