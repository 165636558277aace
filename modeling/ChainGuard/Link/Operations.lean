import ChainGuard.Library.History

/-! What uploads, grants and revocations leave a user, read in two ways: by a flag for each
document, which only a revocation of that document clears, and by a generation for the vault,
which every revocation ends. Operations are listed newest first. -/
namespace ChainGuard.Link
open History
set_option autoImplicit false

universe u
variable {δ : Type u}

/-- An operation on a vault's documents, with one user in view. -/
inductive Operation (δ : Type u)
  | upload (d : δ)
  | grant (d : δ)
  | revoke (d : δ)
  deriving DecidableEq, Repr

def Operation.map {δ' : Type u} (ψ : δ → δ') : Operation δ → Operation δ'
  | .upload d => .upload (ψ d)
  | .grant d => .grant (ψ d)
  | .revoke d => .revoke (ψ d)

/-- A revocation, whatever the document. -/
def Operation.Revokes : Operation δ → Prop
  | .revoke _ => True
  | _ => False

def Standing (d : δ) (ops : List (Operation δ)) : Prop := Since (· ≠ .revoke d) (· = .grant d) ops

def Current (d : δ) (ops : List (Operation δ)) : Prop := Since (fun o => ¬ o.Revokes) (· = .grant d) ops

def SoleRevocations : List (Operation δ) → Prop
  | [] => True
  | .revoke d :: rest => (∀ d', d' ≠ d → ¬ Standing d' rest) ∧ SoleRevocations rest
  | _ :: rest => SoleRevocations rest

theorem standing_cons (d : δ) (o : Operation δ) (rest : List (Operation δ)) :
    Standing d (o :: rest) ↔ o = .grant d ∨ (o ≠ .revoke d ∧ Standing d rest) := Iff.rfl

theorem current_cons (d : δ) (o : Operation δ) (rest : List (Operation δ)) :
    Current d (o :: rest) ↔ o = .grant d ∨ (¬ o.Revokes ∧ Current d rest) := Iff.rfl

theorem not_current_revoke (d d' : δ) (rest : List (Operation δ)) : ¬ Current d' (.revoke d :: rest) := by
  rw [current_cons]
  rintro (h | h)
  · cases h
  · exact h.1 trivial

theorem SoleRevocations.tail {o : Operation δ} {rest : List (Operation δ)}
    (h : SoleRevocations (o :: rest)) : SoleRevocations rest := by
  cases o with
  | upload d => exact h
  | grant d => exact h
  | revoke d => exact h.2

theorem SoleRevocations.of_suffix {ops early : List (Operation δ)} (h : SoleRevocations ops)
    (hsuf : early <:+ ops) : SoleRevocations early := by
  induction ops with
  | nil =>
    rw [List.suffix_nil.mp hsuf]
    trivial
  | cons o rest ih =>
    rcases List.suffix_cons_iff.mp hsuf with rfl | hsuf
    · exact h
    · exact ih h.tail hsuf

theorem SoleRevocations.standing_iff_current {ops : List (Operation δ)} (h : SoleRevocations ops) (d : δ) :
    Standing d ops ↔ Current d ops := by
  induction ops with
  | nil => exact Iff.rfl
  | cons o rest ih =>
    rw [standing_cons, current_cons, ← ih h.tail]
    cases o with
    | upload d' => simp [Operation.Revokes]
    | grant d' => simp [Operation.Revokes]
    | revoke d' =>
      by_cases hd : d = d'
      · subst hd
        simp [Operation.Revokes]
      · have hnot : ¬ Standing d rest := h.1 d hd
        simp [Operation.Revokes, hnot]

theorem standing_iff_current_throughout (ops : List (Operation δ)) :
    (∀ early, early <:+ ops → ∀ d, Standing d early ↔ Current d early) ↔ SoleRevocations ops := by
  constructor
  · intro hsame
    induction ops with
    | nil => trivial
    | cons o rest ih =>
      have hrest := ih fun early hsuf => hsame early (hsuf.trans (List.suffix_cons o rest))
      cases o with
      | upload d => exact hrest
      | grant d => exact hrest
      | revoke d =>
        refine ⟨fun d' hd' hstanding => ?_, hrest⟩
        have hnow : Standing d' (.revoke d :: rest) := by
          rw [standing_cons]
          exact Or.inr ⟨fun e => hd' (Operation.revoke.inj e).symm, hstanding⟩
        exact not_current_revoke d d' rest ((hsame _ (List.suffix_refl _) d').mp hnow)
  · intro hsole early hsuf d
    exact (hsole.of_suffix hsuf).standing_iff_current d

/-! ## Operations read off a history -/

variable {α : Type u} {operation : α → Option (Operation δ)}

theorem standing_filterMap_cons (d : δ) (t : α) (rest : List α) :
    Standing d ((t :: rest).filterMap operation) ↔ operation t = some (.grant d) ∨
      (operation t ≠ some (.revoke d) ∧ Standing d (rest.filterMap operation)) := by
  cases h : operation t with
  | none => simp [h]
  | some o => rw [List.filterMap_cons_some h, standing_cons]; simp

theorem current_filterMap_cons (d : δ) (t : α) (rest : List α) :
    Current d ((t :: rest).filterMap operation) ↔ operation t = some (.grant d) ∨
      ((∀ d', operation t ≠ some (.revoke d')) ∧ Current d (rest.filterMap operation)) := by
  cases h : operation t with
  | none => simp [h]
  | some o =>
    rw [List.filterMap_cons_some h, current_cons]
    cases o with
    | upload d' => simp [Operation.Revokes]
    | grant d' => simp [Operation.Revokes]
    | revoke d' => simp [Operation.Revokes]

theorem Standing.granted {d : δ} {ops : List (Operation δ)} (h : Standing d ops) : .grant d ∈ ops := by
  obtain ⟨o, ho, rfl⟩ := Since.once h
  exact ho

theorem Current.granted {d : δ} {ops : List (Operation δ)} (h : Current d ops) : .grant d ∈ ops := by
  obtain ⟨o, ho, rfl⟩ := Since.once h
  exact ho

theorem standing_map {δ' : Type u} {ψ : δ → δ'} (hψ : Function.Injective ψ) (d : δ)
    (ops : List (Operation δ)) : Standing (ψ d) (ops.map (Operation.map ψ)) ↔ Standing d ops := by
  induction ops with
  | nil => exact Iff.rfl
  | cons o rest ih =>
    rw [List.map_cons, standing_cons, standing_cons, ih]
    cases o with
    | upload d' => simp [Operation.map]
    | grant d' => simp [Operation.map, hψ.eq_iff]
    | revoke d' => simp [Operation.map, hψ.eq_iff]

end ChainGuard.Link
