import ChainGuard.OffChain.KeyRotationOutcomes

/-! The envelopes of the documents that a rotation reports as rotated. Each entry is reported once, but the envelopes
that were made for the new key are dropped: what is stored decrypts under the old key only. -/
namespace ChainGuard.OffChain.KeyRotation
open Methods ClientKeyring
set_option autoImplicit false

variable {keys : ClientKeyring.Config} {ecies : Ecies keys}

/-! ## What is reported -/

section Reports
variable {oldPrivateKey newPublicKey : JsString}

theorem reencryptItem_ok {x : ReencryptionAnswer} {item : Option (ShareEnvelopeRef ecies)} {documentId : DocumentId}
    (h : reencryptItem ecies oldPrivateKey newPublicKey x item = .ok documentId) :
    ∃ ref envelope reencrypted, item = some ref ∧ ref.envelope = some envelope ∧ ref.documentId = documentId ∧
      reencryptEnvelopeAsync ecies oldPrivateKey newPublicKey x envelope = .ok reencrypted := by
  unfold reencryptItem at h
  cases item with
  | none => cases h
  | some ref =>
    rw [Option.bind_some] at h
    cases henvelope : ref.envelope with
    | none =>
      rw [henvelope] at h
      cases h
    | some envelope =>
      simp only [henvelope] at h
      cases hreencrypt : reencryptEnvelopeAsync ecies oldPrivateKey newPublicKey x envelope with
      | error message =>
        rw [hreencrypt] at h
        cases h
      | ok reencrypted =>
        rw [hreencrypt] at h
        cases h
        exact ⟨ref, envelope, reencrypted, rfl, henvelope, rfl, hreencrypt⟩

theorem reencryptItem_rotated {x : ReencryptionAnswer} {ref : ShareEnvelopeRef ecies} {envelope reencrypted : ecies.Envelope}
    (henvelope : ref.envelope = some envelope)
    (h : reencryptEnvelopeAsync ecies oldPrivateKey newPublicKey x envelope = .ok reencrypted) :
    reencryptItem ecies oldPrivateKey newPublicKey x (some ref) = .ok ref.documentId := by
  simp only [reencryptItem, Option.bind_some, henvelope, h]
  rfl

theorem reencryptItem_documentId (x : ReencryptionAnswer) (item : Option (ShareEnvelopeRef ecies)) :
    match reencryptItem ecies oldPrivateKey newPublicKey x item with
    | .ok documentId => documentId = documentIdOf ecies item
    | .error reported => reported.documentId = documentIdOf ecies item := by
  unfold reencryptItem
  cases item.bind (·.envelope) with
  | none => rfl
  | some envelope =>
    dsimp only
    cases reencryptEnvelopeAsync ecies oldPrivateKey newPublicKey x envelope with
    | error message => rfl
    | ok reencrypted => rfl

theorem mem_rotated {x : ℕ → ReencryptionAnswer} {documentId : DocumentId} {envelopes : Envelopes ecies} (i : ℕ) :
    documentId ∈ (reencryptEnvelopes ecies oldPrivateKey newPublicKey x i envelopes).1 ↔
      ∃ j item, envelopes[j]? = some item ∧
        reencryptItem ecies oldPrivateKey newPublicKey (x (i + j)) item = .ok documentId := by
  induction envelopes generalizing i with
  | nil => simp [reencryptEnvelopes]
  | cons item items ih =>
    have hrest := ih (i + 1)
    have hsplit : (∃ j item', (item :: items)[j]? = some item' ∧
        reencryptItem ecies oldPrivateKey newPublicKey (x (i + j)) item' = .ok documentId) ↔
          reencryptItem ecies oldPrivateKey newPublicKey (x i) item = .ok documentId ∨
            ∃ j item', items[j]? = some item' ∧
              reencryptItem ecies oldPrivateKey newPublicKey (x (i + 1 + j)) item' = .ok documentId := by
      constructor
      · rintro ⟨j, item', hitem, hok⟩
        cases j with
        | zero =>
          cases hitem
          exact .inl hok
        | succ j => exact .inr ⟨j, item', hitem, by rwa [Nat.add_assoc, Nat.add_comm 1 j]⟩
      · rintro (hok | ⟨j, item', hitem, hok⟩)
        · exact ⟨0, item, rfl, hok⟩
        · exact ⟨j + 1, item', hitem, by rwa [Nat.add_comm j 1, ← Nat.add_assoc]⟩
    rw [hsplit, ← hrest, reencryptEnvelopes]
    cases reencryptItem ecies oldPrivateKey newPublicKey (x i) item with
    | error reported => simp
    | ok rotated => simp [eq_comm]

theorem reported_perm (x : ℕ → ReencryptionAnswer) (envelopes : Envelopes ecies) (i : ℕ) :
    (envelopes.map (documentIdOf ecies)).Perm
      ((reencryptEnvelopes ecies oldPrivateKey newPublicKey x i envelopes).1 ++
        (reencryptEnvelopes ecies oldPrivateKey newPublicKey x i envelopes).2.map (·.documentId)) := by
  induction envelopes generalizing i with
  | nil => exact .refl _
  | cons item items ih =>
    have hdocument := @reencryptItem_documentId _ ecies oldPrivateKey newPublicKey (x i) item
    rw [List.map_cons, reencryptEnvelopes]
    cases hitem : reencryptItem ecies oldPrivateKey newPublicKey (x i) item with
    | ok documentId =>
      rw [hitem] at hdocument
      dsimp only at hdocument ⊢
      rw [hdocument]
      exact (ih (i + 1)).cons _
    | error reported =>
      rw [hitem] at hdocument
      dsimp only at hdocument ⊢
      rw [List.map_cons, hdocument]
      exact ((ih (i + 1)).cons _).trans List.perm_middle.symm

end Reports

/-! ## What is stored -/

section Shares
variable (x : RotationAnswers) (c : Call ecies) (w : World ecies)

def Call.Passes (documentId : DocumentId) (envelope : ecies.Envelope) : Prop :=
  ∃ envelopes ∈ c.lists, ∃ ref, some ref ∈ envelopes ∧ ref.documentId = documentId ∧ ref.envelope = some envelope

/-- The old pair is one, and the envelopes that are passed are those that are stored, encrypted to its public key. -/
structure Compromised : Prop where
  pair : keys.publicKeyOf c.options.oldPrivateKey = c.options.oldPublicKey
  stored : ∀ documentId envelope, envelope ∈ w.documents documentId ↔ c.Passes documentId envelope
  encrypted : ∀ documentId envelope, c.Passes documentId envelope →
    ∃ random plaintext, ecies.encryptWithPublicKey random plaintext c.options.oldPublicKey = .ok envelope

/-- Of each document that is listed as rotated, an envelope is stored that decrypts, under the private key that the
record now holds, to what the old one held; and each entry is reported once. Reports hold no envelopes. -/
structure SharesReadable (reports : List Reported) (w' : World ecies) : Prop where
  readable : ∀ (i : ℕ) (envelopes : Envelopes ecies) (report : Reported), c.lists[i]? = some envelopes →
    reports[i]? = some report → ∀ (ref : ShareEnvelopeRef ecies) (envelope : ecies.Envelope) (plaintext : JsString),
      some ref ∈ envelopes → ref.documentId ∈ report.1 → ref.envelope = some envelope →
      ecies.decryptWithPrivateKey envelope c.options.oldPrivateKey = .ok plaintext →
        ∃ envelope' ∈ w'.documents ref.documentId, ∃ privateKey,
          heldKey keys c.options.account w'.keyring = some privateKey ∧
            ecies.decryptWithPrivateKey envelope' privateKey = .ok plaintext
  reported : List.Forall₂ (fun envelopes report =>
    (envelopes.map (documentIdOf ecies)).Perm (report.1 ++ report.2.map (·.documentId))) c.lists reports

def Reencrypts : Prop :=
  ∃ i envelopes j ref envelope reencrypted, c.lists[i]? = some envelopes ∧ envelopes[j]? = some (some ref) ∧
    ref.envelope = some envelope ∧
      reencryptEnvelopeAsync ecies c.options.oldPrivateKey (c.pair x).1 (x.reencryption i j) envelope = .ok reencrypted

theorem reports_reported : List.Forall₂ (fun envelopes report =>
    (envelopes.map (documentIdOf ecies)).Perm (report.1 ++ report.2.map (·.documentId))) c.lists (c.reports x) := by
  rw [List.forall₂_iff_get]
  refine ⟨by simp [Call.reports], fun i hi hi' => ?_⟩
  simp only [Call.reports, List.get_eq_getElem, List.getElem_mapIdx]
  exact reported_perm _ _ _

theorem reports_get {i : ℕ} {envelopes : Envelopes ecies} (h : c.lists[i]? = some envelopes) :
    (c.reports x)[i]? = some (reencryptEnvelopes ecies c.options.oldPrivateKey (c.pair x).1 (x.reencryption i) 0 envelopes) := by
  rw [Call.reports, List.getElem?_mapIdx, h]
  rfl

variable {x c w}

theorem shares_readable_iff (h : Compromised c w) {reports : List Reported} {w' : World ecies}
    (hcall : call (c.run x) w = (.ok reports, w')) :
    SharesReadable c reports w' ↔
      ¬ Reencrypts x c ∨ keys.publicKeyOf (c.pair x).2 = c.options.oldPublicKey := by
  have houtcome := run_outcome x c w
  rw [hcall] at houtcome
  cases houtcome with
  | completed hcompletes keyring hheld =>
    constructor
    · intro hreadable
      refine or_iff_not_imp_left.mpr fun hsome => ?_
      obtain ⟨i, envelopes, j, ref, envelope, reencrypted, hlist, hitem, henvelope, hreencrypts⟩ := not_not.mp hsome
      have hmem : some ref ∈ envelopes := List.mem_of_getElem? hitem
      have hpasses : c.Passes ref.documentId envelope := ⟨envelopes, List.mem_of_getElem? hlist, ref, hmem, rfl, henvelope⟩
      obtain ⟨random, plaintext, hencrypted⟩ := h.encrypted _ _ hpasses
      have hdecrypts : ecies.decryptWithPrivateKey envelope c.options.oldPrivateKey = .ok plaintext :=
        (ecies.ideal hencrypted _ _).mpr ⟨h.pair, rfl⟩
      have hrotated : ref.documentId ∈ (reencryptEnvelopes ecies c.options.oldPrivateKey (c.pair x).1
          (x.reencryption i) 0 envelopes).1 := by
        refine (mem_rotated 0).mpr ⟨j, some ref, hitem, ?_⟩
        rw [Nat.zero_add]
        exact reencryptItem_rotated henvelope hreencrypts
      obtain ⟨envelope', hstored, privateKey, hkey, hdecrypts'⟩ := hreadable.readable i envelopes _ hlist
        (reports_get x c hlist) ref envelope plaintext hmem hrotated henvelope hdecrypts
      obtain ⟨random', plaintext', hencrypted'⟩ := h.encrypted _ _ ((h.stored _ _).mp hstored)
      cases hheld.symm.trans hkey
      exact ((ecies.ideal hencrypted' _ _).mp hdecrypts').1
    · intro hcondition
      refine ⟨?_, reports_reported x c⟩
      intro i envelopes report hlist hreport ref envelope plaintext hmem hrotated henvelope hdecrypts
      cases (reports_get x c hlist).symm.trans hreport
      rcases hcondition with hnone | hsame
      · obtain ⟨j, item, hitem, hok⟩ := (mem_rotated 0).mp hrotated
        obtain ⟨ref', envelope', reencrypted, rfl, henvelope', _, hreencrypts⟩ := reencryptItem_ok hok
        rw [Nat.zero_add] at hreencrypts
        exact (hnone ⟨i, envelopes, j, ref', envelope', reencrypted, hlist, hitem, henvelope', hreencrypts⟩).elim
      · have hpasses : c.Passes ref.documentId envelope :=
          ⟨envelopes, List.mem_of_getElem? hlist, ref, hmem, rfl, henvelope⟩
        obtain ⟨random, plaintext', hencrypted⟩ := h.encrypted _ _ hpasses
        have hplaintext := ((ecies.ideal hencrypted _ _).mp hdecrypts).2
        exact ⟨envelope, (h.stored _ _).mpr hpasses, (c.pair x).2, hheld, (ecies.ideal hencrypted _ _).mpr ⟨hsame, hplaintext⟩⟩

end Shares

/-! ## Two documents -/

def twoShares : List (ShareEnvelopeRef (plainEcies plainKeys)) :=
  [⟨.number 1, some ([3], js "share")⟩, ⟨.number 2, some ([3], js "other")⟩]

def twoDocuments : World (plainEcies plainKeys) where
  documents := fun documentId => (twoShares.filter fun ref => ref.documentId = documentId).filterMap (·.envelope)

/-- The old pair is `[3]`; a new one is passed, or is to be generated when it is `[]`. One entry is missing. -/
def twoDocumentShares (newKey : JsString) : KeyRotationOptions (plainEcies plainKeys) where
  account := wallet
  oldPublicKey := [3]
  oldPrivateKey := [3]
  newPublicKey := newKey
  newPrivateKey := newKey
  pinOrPassphrase := [49]
  envelopes := twoShares.map some ++ [none]

theorem twoDocuments_compromised (newKey : JsString) :
    Compromised (.rotateCompromisedKey (twoDocumentShares newKey)) twoDocuments where
  pair := rfl
  stored documentId envelope := by
    simp [Call.Passes, Call.lists, twoDocuments, twoDocumentShares, and_assoc]
  encrypted documentId envelope hpasses := by
    obtain ⟨envelopes, hlist, ref, href, -, henvelope⟩ := hpasses
    cases List.mem_singleton.mp hlist
    have hold : ∀ ref ∈ twoShares, ref.envelope.map Prod.fst = some [3] := by decide
    have hpublic := hold ref (by simpa [twoDocumentShares] using href)
    rw [henvelope] at hpublic
    exact ⟨0, envelope.2, congrArg Except.ok (Prod.ext (Option.some.inj hpublic).symm rfl)⟩

/-- Both are rotated. -/
def bothReported : Reported := ([.number 1, .number 2], [⟨.string (js "unknown"), js "Missing envelope payload"⟩])

/-- A pair is generated, and the worker fails on every envelope. -/
def workerFails : RotationAnswers := { generated := [5], reencryption := fun _ _ => { failure := some (js "timeout") } }

/-- The old pair is kept, or no envelope is encrypted again. -/
theorem shares_readable_kept :
    (∃ w', call ((Call.rotateCompromisedKey (twoDocumentShares [3])).run {}) twoDocuments = (.ok [bothReported], w') ∧
      SharesReadable (.rotateCompromisedKey (twoDocumentShares [3])) [bothReported] w') ∧
    ∃ failures w', call ((Call.rotateCompromisedKey (twoDocumentShares [])).run workerFails) twoDocuments =
      (.ok [([], failures)], w') ∧ SharesReadable (.rotateCompromisedKey (twoDocumentShares [])) [([], failures)] w' := by
  have hkept : ∃ w', call ((Call.rotateCompromisedKey (twoDocumentShares [3])).run {}) twoDocuments =
      (.ok [bothReported], w') := ⟨_, rfl⟩
  have hfails : ∃ failures w', call ((Call.rotateCompromisedKey (twoDocumentShares [])).run workerFails) twoDocuments =
      (.ok [([], failures)], w') := ⟨_, _, rfl⟩
  obtain ⟨w, hkept⟩ := hkept
  obtain ⟨failures, w', hfails⟩ := hfails
  refine ⟨⟨w, hkept, (shares_readable_iff (twoDocuments_compromised [3]) hkept).mpr (.inr rfl)⟩, failures, w', hfails,
    (shares_readable_iff (twoDocuments_compromised []) hfails).mpr (.inl ?_)⟩
  rintro ⟨_, _, _, _, _, _, _, _, _, hreencrypts⟩
  cases hreencrypts

/-- Both shares are reported as rotated to a generated pair, and are lost. -/
theorem share_lost : ∃ w', Compromised (.rotateCompromisedKey (twoDocumentShares [])) twoDocuments ∧
    call ((Call.rotateCompromisedKey (twoDocumentShares [])).run { generated := [5] }) twoDocuments =
      (.ok [bothReported], w') ∧ ¬ SharesReadable (.rotateCompromisedKey (twoDocumentShares [])) [bothReported] w' := by
  refine ⟨_, twoDocuments_compromised [], rfl, fun h => ?_⟩
  obtain ⟨envelope', hstored, privateKey, hkey, hdecrypts⟩ := h.readable 0 _ bothReported rfl rfl
    ⟨.number 1, some ([3], js "share")⟩ ([3], js "share") (js "share") List.mem_cons_self List.mem_cons_self rfl rfl
  cases List.mem_singleton.mp hstored
  cases hkey
  cases hdecrypts

end ChainGuard.OffChain.KeyRotation
