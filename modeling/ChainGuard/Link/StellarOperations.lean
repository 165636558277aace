import ChainGuard.Link.Operations
import ChainGuard.Soroban.AccessFlags

/-! The operations of a Soroban run on one vault with one user in view. For a user who is no guardian
access is the reading by flags: a revocation ends the grant of its own document. -/
namespace ChainGuard.Soroban
open Guarded History Link
set_option autoImplicit false

variable {host : Host} {s s' : State} {hist : List (Transition State Invocation)} {v : ℕ} {u : Address}

/-- The operation a transition performs on a vault, as far as the user is concerned. -/
def operation (v : ℕ) (u : Address) (t : Transition State Invocation) : Option (Operation ℕ) :=
  match uploaded t, granted t, revoked t with
  | some (d, _), _, _ => if documentVault t.post d = some v then some (.upload d) else none
  | none, some (d, w), _ => if documentVault t.pre d = some v ∧ w = u then some (.grant d) else none
  | none, none, some (d, w) => if documentVault t.pre d = some v ∧ w = u then some (.revoke d) else none
  | none, none, none => none

def Outside (v : ℕ) (u : Address) (t : Transition State Invocation) : Prop :=
  ∀ record ∈ t.pre.vaults.vaults v, u ∉ record.vault.guardians

instance (v : ℕ) (u : Address) : DecidablePred (Outside v u) := fun t =>
  inferInstanceAs (Decidable (∀ record ∈ t.pre.vaults.vaults v, _))

theorem Steps.documentVault_kept {i : Invocation} (hstep : Steps host s i s')
    (hr : StellarRun host hist s) {d w : ℕ} (h : documentVault s d = some w) :
    documentVault s' d = some w := by
  obtain ⟨doc, hdoc, hw⟩ := Option.map_eq_some_iff.mp h
  rw [documentVault, hstep.document_effect.kept_doc (documentsCounted hr) hdoc, Option.map_some, hw]

theorem upload_operation_document (h : StellarRun host hist s) {d : ℕ}
    (hd : .upload d ∈ hist.filterMap (operation v u)) : documentVault s d = some v := by
  induction h with
  | start _ => exact absurd hd List.not_mem_nil
  | @next hist s s' i hr hstep ih =>
    obtain ⟨t, ht, hop⟩ := List.mem_filterMap.mp hd
    rcases List.mem_cons.mp ht with rfl | ht
    · unfold operation at hop
      cases hstep.flag_effect with
      | kept _ hgranted huploaded hrevoked =>
        rw [huploaded, hgranted, hrevoked] at hop
        cases hop
      | uploaded _ _ _ _ _ _ _ _ huploaded _ =>
        rw [huploaded] at hop
        dsimp only at hop
        split at hop
        · next hvault =>
          cases hop
          exact hvault
        · cases hop
      | granted _ _ _ _ hgranted huploaded _ =>
        rw [huploaded, hgranted] at hop
        dsimp only at hop
        split at hop <;> cases hop
      | revoked _ _ _ _ hgranted huploaded hrevoked =>
        rw [huploaded, hgranted, hrevoked] at hop
        dsimp only at hop
        split at hop <;> cases hop
    · exact hstep.documentVault_kept hr (ih (List.mem_filterMap.mpr ⟨t, ht, hop⟩))

/-- A user who is no guardian of the vault has access to a document of no other vault exactly when it
was granted and that document not revoked since. -/
theorem hasAccess_iff_standing (h : StellarRun host hist s) (hout : ∀ t ∈ hist, Outside v u t) {d : ℕ}
    (hd : ∀ w, documentVault s d = some w → w = v) :
    s.grants.hasAccess d u = true ↔ Standing d (hist.filterMap (operation v u)) := by
  induction h with
  | start hi =>
    cases hi
    exact iff_of_false Bool.false_ne_true id
  | @next hist s s' i hr hstep ih =>
    have hbefore : ∀ w, documentVault s d = some w → w = v :=
      fun w hw => hd w (hstep.documentVault_kept hr hw)
    have hstored : (documentVault s d).isSome = true → documentVault s d = some v := by
      intro hsome
      obtain ⟨w, hw⟩ := Option.isSome_iff_exists.mp hsome
      rw [hw, hbefore w hw]
    rw [standing_filterMap_cons, ← ih (fun t ht => hout t (List.mem_cons_of_mem _ ht)) hbefore]
    unfold operation
    cases hstep.flag_effect with
    | kept hhas hgranted huploaded hrevoked =>
      rw [huploaded, hgranted, hrevoked, hhas]
      simp
    | uploaded v₀ w record hrecord hguardian hvault hhas _ huploaded _ =>
      rw [huploaded, hhas]
      have hne : ¬ (d = s.documents.docCount + 1 ∧ u = w) := by
        rintro ⟨rfl, rfl⟩
        obtain rfl := hd v₀ hvault
        exact hout _ (List.mem_cons_self ..) record hrecord hguardian
      rw [Mapping.set₂_elsewhere _ _ _ _ _ _ hne]
      dsimp only
      split <;> simp
    | granted d' w hsome hhas hgranted huploaded _ =>
      rw [huploaded, hgranted, hhas, Mapping.set₂_apply]
      dsimp only
      by_cases he : d = d' ∧ u = w
      · obtain ⟨rfl, rfl⟩ := he
        simp [hstored hsome]
      · rw [if_neg he]
        split
        · next heq =>
          have hdne : d' ≠ d := fun e => he ⟨e.symm, heq.2.symm⟩
          simp [hdne]
        · simp
    | revoked d' w hsome hhas hgranted huploaded hrevoked =>
      rw [huploaded, hgranted, hrevoked, hhas, Mapping.set₂_apply]
      dsimp only
      by_cases he : d = d' ∧ u = w
      · obtain ⟨rfl, rfl⟩ := he
        simp [hstored hsome]
      · rw [if_neg he]
        split
        · next heq =>
          have hdne : d' ≠ d := fun e => he ⟨e.symm, heq.2.symm⟩
          simp [hdne]
        · simp

end ChainGuard.Soroban
