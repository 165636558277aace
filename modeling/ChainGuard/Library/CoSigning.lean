import Mathlib.Data.List.Nodup
import Mathlib.Data.Nat.Basic
import ChainGuard.Library.History

/-! Proposals that are signed one by one and executed with the last signature needed. There is one slot:
a signature under another subject replaces the proposal in it, an execution empties it. What an
execution consumes is read off the history, and no signature is consumed twice. -/
namespace CoSigning
open History
set_option autoImplicit false

universe u v w x

variable {σ : Type u} {ι : Type v} {A : Type w} {H : Type x} [DecidableEq H]

/-! ## Signatures in a history -/

section Histories
variable {τ : Type u} (signs : τ → Option (A × H)) (executes : τ → Bool)

/-- The signatures under the subject that the next execution consumes, newest first: those after the
last execution and the last signature under another subject, each with its place in the history. -/
def pending (h : H) : List τ → List (ℕ × A)
  | [] => []
  | t :: earlier =>
    if executes t then []
    else match signs t with
      | none => pending h earlier
      | some (a, h') => if h' = h then (earlier.length, a) :: pending h earlier else []

def consumedBy (t : τ) (earlier : List τ) : List (ℕ × A) :=
  match signs t with
  | none => []
  | some (a, h) => (earlier.length, a) :: pending signs executes h earlier

def consumed : List τ → List (ℕ × A)
  | [] => []
  | t :: earlier => (if executes t then consumedBy signs executes t earlier else []) ++ consumed earlier

def lastExecution : List τ → ℕ
  | [] => 0
  | t :: earlier => if executes t then earlier.length + 1 else lastExecution earlier

variable {signs executes} {hist : List τ}

theorem lastExecution_le (hist : List τ) : lastExecution executes hist ≤ hist.length := by
  induction hist with
  | nil => exact le_rfl
  | cons t earlier ih =>
    unfold lastExecution
    split
    · exact le_rfl
    · exact ih.trans (Nat.le_succ _)

theorem pending_place {h : H} {p : ℕ × A} (hp : p ∈ pending signs executes h hist) :
    lastExecution executes hist ≤ p.1 ∧ p.1 < hist.length := by
  induction hist with
  | nil => cases hp
  | cons t earlier ih =>
    unfold pending at hp
    unfold lastExecution
    split at hp
    · cases hp
    · next hne =>
      rw [if_neg hne]
      split at hp
      · have hplace := ih hp
        exact ⟨hplace.1, hplace.2.trans (Nat.lt_succ_self _)⟩
      · split at hp
        · rcases List.mem_cons.mp hp with rfl | hp
          · exact ⟨lastExecution_le earlier, Nat.lt_succ_self _⟩
          · have hplace := ih hp
            exact ⟨hplace.1, hplace.2.trans (Nat.lt_succ_self _)⟩
        · cases hp

/-- A pending signature was made in the history, with no execution and no signature under another
subject after it. -/
theorem pending_signed {h : H} {p : ℕ × A} (hp : p ∈ pending signs executes h hist) :
    ∃ since t before, hist = since ++ t :: before ∧ before.length = p.1 ∧ signs t = some (p.2, h) ∧
      ∀ t' ∈ since, executes t' = false ∧ ∀ a h', signs t' = some (a, h') → h' = h := by
  induction hist with
  | nil => cases hp
  | cons t earlier ih =>
    unfold pending at hp
    split at hp
    · cases hp
    · next hidle =>
      have hidle : executes t = false := Bool.eq_false_iff.mpr hidle
      split at hp
      · next hnone =>
        obtain ⟨since, t₀, before, rfl, hplace, hsigned, hsince⟩ := ih hp
        refine ⟨t :: since, t₀, before, rfl, hplace, hsigned, List.forall_mem_cons.mpr ⟨⟨hidle, ?_⟩, hsince⟩⟩
        intro a h' hsome
        rw [hnone] at hsome
        cases hsome
      · next a h' hsome =>
        split at hp
        · next heq =>
          subst heq
          rcases List.mem_cons.mp hp with rfl | hp
          · exact ⟨[], t, earlier, rfl, rfl, hsome, fun _ hmem => absurd hmem List.not_mem_nil⟩
          · obtain ⟨since, t₀, before, rfl, hplace, hsigned, hsince⟩ := ih hp
            refine ⟨t :: since, t₀, before, rfl, hplace, hsigned,
              List.forall_mem_cons.mpr ⟨⟨hidle, ?_⟩, hsince⟩⟩
            intro b h'' hagain
            rw [hsome] at hagain
            cases hagain
            rfl
        · cases hp

theorem consumedBy_signed {t : τ} {a : A} {h : H} {p : ℕ × A} (hsign : signs t = some (a, h))
    (hp : p ∈ consumedBy signs executes t hist) :
    ∃ since t₀ before, t :: hist = since ++ t₀ :: before ∧ before.length = p.1 ∧
      signs t₀ = some (p.2, h) ∧ ∀ t' ∈ since, ∀ a' h', signs t' = some (a', h') → h' = h := by
  rw [consumedBy, hsign] at hp
  rcases List.mem_cons.mp hp with rfl | hp
  · exact ⟨[], t, hist, rfl, rfl, hsign, fun _ hmem => absurd hmem List.not_mem_nil⟩
  · obtain ⟨since, t₀, before, rfl, hplace, hsigned, hsince⟩ := pending_signed hp
    refine ⟨t :: since, t₀, before, rfl, hplace, hsigned, List.forall_mem_cons.mpr ⟨?_, ?_⟩⟩
    · intro a' h' hother
      rw [hsign] at hother
      cases hother
      rfl
    · intro t' ht'
      exact (hsince t' ht').2

theorem pending_nodup (h : H) (hist : List τ) : (pending signs executes h hist).Nodup := by
  induction hist with
  | nil => exact List.nodup_nil
  | cons t earlier ih =>
    unfold pending
    split
    · exact List.nodup_nil
    · split
      · exact ih
      · split
        · refine List.nodup_cons.mpr ⟨fun hmem => ?_, ih⟩
          exact lt_irrefl _ (pending_place hmem).2
        · exact List.nodup_nil

theorem consumedBy_place {t : τ} {p : ℕ × A} (hp : p ∈ consumedBy signs executes t hist) :
    lastExecution executes hist ≤ p.1 ∧ p.1 < hist.length + 1 := by
  unfold consumedBy at hp
  split at hp
  · cases hp
  · rcases List.mem_cons.mp hp with rfl | hp
    · exact ⟨lastExecution_le hist, Nat.lt_succ_self _⟩
    · have hplace := pending_place hp
      exact ⟨hplace.1, hplace.2.trans (Nat.lt_succ_self _)⟩

theorem consumedBy_nodup (t : τ) (hist : List τ) : (consumedBy signs executes t hist).Nodup := by
  unfold consumedBy
  split
  · exact List.nodup_nil
  · refine List.nodup_cons.mpr ⟨fun hmem => ?_, pending_nodup _ _⟩
    exact lt_irrefl _ (pending_place hmem).2

theorem consumed_place {p : ℕ × A} (hp : p ∈ consumed signs executes hist) :
    p.1 < lastExecution executes hist := by
  induction hist with
  | nil => cases hp
  | cons t earlier ih =>
    unfold consumed at hp
    unfold lastExecution
    split at hp
    · next he =>
      rw [if_pos he]
      rcases List.mem_append.mp hp with hp | hp
      · exact (consumedBy_place hp).2
      · exact (ih hp).trans_le ((lastExecution_le earlier).trans (Nat.le_succ _))
    · next hne =>
      rw [if_neg hne]
      exact ih hp

theorem consumed_nodup (signs : τ → Option (A × H)) (executes : τ → Bool) (hist : List τ) :
    (consumed signs executes hist).Nodup := by
  induction hist with
  | nil => exact List.nodup_nil
  | cons t earlier ih =>
    unfold consumed
    split
    · refine List.nodup_append.mpr ⟨consumedBy_nodup t earlier, ih, ?_⟩
      rintro p hp q hq rfl
      have hafter := (consumedBy_place hp).1
      have hbefore := consumed_place hq
      omega
    · exact ih

end Histories

/-! ## The slot -/

/-- A proposal: its subject and who signed it. -/
abbrev Slot (A : Type w) (H : Type x) := Option (H × List A)

/-- Those who signed the proposal in the slot, if it is about the subject. -/
def signers (h : H) : Slot A H → List A
  | none => []
  | some (h', l) => if h' = h then l else []

section Runs
variable (slot : σ → Slot A H) (threshold : σ → ℕ) (signs : Transition σ ι → Option (A × H))
  (executes : Transition σ ι → Bool)

inductive Effect (t : Transition σ ι) : Prop
  | kept : signs t = none → executes t = false → slot t.post = slot t.pre → Effect t
  | signed (a : A) (h : H) : signs t = some (a, h) → executes t = false →
      a ∉ signers h (slot t.pre) → slot t.post = some (h, signers h (slot t.pre) ++ [a]) → Effect t
  | executed (a : A) (h : H) : signs t = some (a, h) → executes t = true →
      a ∉ signers h (slot t.pre) → threshold t.pre ≤ (signers h (slot t.pre)).length + 1 →
      slot t.post = none → Effect t

/-- The slot holds the pending signatures, each by somebody else. -/
structure Records (hist : List (Transition σ ι)) (s : σ) : Prop where
  pending : ∀ h, signers h (slot s) = ((pending signs executes h hist).map Prod.snd).reverse
  distinct : ∀ h, (signers h (slot s)).Nodup

variable {slot threshold signs executes} {init : σ → Prop} {step : σ → ι → σ → Prop}
  {hist : List (Transition σ ι)} {s : σ} {t : Transition σ ι}

theorem Records.next (h : Records slot signs executes hist t.pre)
    (heffect : Effect slot threshold signs executes t) : Records slot signs executes (t :: hist) t.post := by
  cases heffect with
  | kept hnone hidle hsame =>
    refine ⟨fun h' => ?_, fun h' => ?_⟩
    · rw [hsame, h.pending h', CoSigning.pending, if_neg (by rw [hidle]; decide), hnone]
    · rw [hsame]
      exact h.distinct h'
  | signed a subject hsome hidle hnew hpost =>
    refine ⟨fun h' => ?_, fun h' => ?_⟩
    · rw [CoSigning.pending, if_neg (by rw [hidle]; decide), hsome, hpost]
      by_cases hh : subject = h'
      · subst hh
        simp only [signers, if_true, List.map_cons, List.reverse_cons]
        rw [← h.pending subject]
        rfl
      · simp only [signers, if_neg hh, List.map_nil, List.reverse_nil]
    · rw [hpost]
      by_cases hh : subject = h'
      · simp only [signers, if_pos hh]
        exact List.nodup_append.mpr ⟨h.distinct subject, List.nodup_singleton a, by
          rintro x hx y hy rfl
          exact hnew (List.mem_singleton.mp hy ▸ hx)⟩
      · simp only [signers, if_neg hh]
        exact List.nodup_nil
  | executed a subject hsome hexec hnew hreached hpost =>
    refine ⟨fun h' => ?_, fun h' => ?_⟩
    · rw [CoSigning.pending, if_pos hexec, hpost]
      rfl
    · rw [hpost]
      exact List.nodup_nil

theorem records (h0 : ∀ s, init s → slot s = none)
    (hs : ∀ hist s i s', Run init step hist s → step s i s' →
      Effect slot threshold signs executes ⟨s, i, s'⟩) (h : Run init step hist s) :
    Records slot signs executes hist s := by
  refine h.relates (R := Records slot signs executes) ?_ ?_
  · intro s hi
    refine ⟨fun h => ?_, fun h => ?_⟩
    · rw [h0 s hi]
      rfl
    · rw [h0 s hi]
      exact List.nodup_nil
  · intro hist s i s' hrun ih hstep
    exact ih.next (hs hist s i s' hrun hstep)

theorem consumes_threshold (h : Records slot signs executes hist t.pre)
    (heffect : Effect slot threshold signs executes t) (hexec : executes t = true) :
    ((consumedBy signs executes t hist).map Prod.snd).Nodup ∧
      threshold t.pre ≤ (consumedBy signs executes t hist).length := by
  cases heffect with
  | kept _ hidle _ =>
    rw [hidle] at hexec
    cases hexec
  | signed _ _ _ hidle _ _ =>
    rw [hidle] at hexec
    cases hexec
  | executed a subject hsome _ hnew hreached _ =>
    have hmap : ((pending signs executes subject hist).map Prod.snd) = (signers subject (slot t.pre)).reverse := by
      rw [h.pending subject, List.reverse_reverse]
    rw [consumedBy, hsome]
    constructor
    · rw [List.map_cons, hmap]
      refine List.nodup_cons.mpr ⟨fun hmem => hnew (List.mem_reverse.mp hmem), ?_⟩
      exact List.nodup_reverse.mpr (h.distinct subject)
    · have hlength : (pending signs executes subject hist).length = (signers subject (slot t.pre)).length := by
        rw [h.pending subject, List.length_reverse, List.length_map]
      rw [List.length_cons, hlength]
      exact hreached

end Runs
end CoSigning
