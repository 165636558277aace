import Mathlib.Data.List.Induction

/-! Values kept with a fingerprint. A write replaces the value and, unless the value is blank, the
fingerprint with it, so after some writes the fingerprint may still be that of an older value.
It is exactly when a value that was not blank has been blanked. -/
namespace Fingerprints
set_option autoImplicit false

structure Entry (β γ : Type) where
  value : β
  mark : γ

variable {β γ : Type} [DecidableEq β] (blank : β) (unmarked : γ) (hash : β → γ)

def Entry.write (e : Entry β γ) (v : β) : Entry β γ :=
  { value := v, mark := if v = blank then e.mark else hash v }

def Entry.writes (e : Entry β γ) (vs : List β) : Entry β γ := vs.foldl (Entry.write blank hash) e

def Entry.Tracks (e : Entry β γ) : Prop := e.mark = if e.value = blank then unmarked else hash e.value

variable {blank unmarked hash} {e : Entry β γ} {vs : List β}

theorem writes_value : (e.writes blank hash vs).value = vs.getLastD e.value := by
  induction vs generalizing e with
  | nil => rfl
  | cons v vs ih =>
    rw [List.getLastD_cons]
    exact ih

theorem writes_mark (h : e.Tracks blank unmarked hash) (hne : (e.writes blank hash vs).value ≠ blank) :
    (e.writes blank hash vs).mark = hash (e.writes blank hash vs).value := by
  induction vs using List.reverseRecOn with
  | nil => exact h.trans (if_neg hne)
  | append_singleton vs v _ =>
    simp only [Entry.writes, List.foldl_append, List.foldl_cons, List.foldl_nil, Entry.write] at hne ⊢
    exact if_neg hne

/-- There is still no fingerprint when there was none and only blanks were written. -/
theorem writes_unmarked_iff (hhash : ∀ v, v ≠ blank → hash v ≠ unmarked) :
    (e.writes blank hash vs).mark = unmarked ↔ e.mark = unmarked ∧ ∀ v ∈ vs, v = blank := by
  induction vs generalizing e with
  | nil => simp [Entry.writes]
  | cons v vs ih =>
    refine ih.trans ?_
    rw [List.forall_mem_cons, ← and_assoc]
    refine and_congr_left' ?_
    by_cases hv : v = blank
    · simp [Entry.write, hv]
    · simp [Entry.write, hv, hhash v hv]

theorem tracks_unmarked_iff (hhash : ∀ v, v ≠ blank → hash v ≠ unmarked)
    (h : e.Tracks blank unmarked hash) : e.mark = unmarked ↔ e.value = blank := by
  by_cases hv : e.value = blank
  · have hmark : e.mark = unmarked := h.trans (if_pos hv)
    exact iff_of_true hmark hv
  · have hmark : e.mark = hash e.value := h.trans (if_neg hv)
    have hne : e.mark ≠ unmarked := by
      rw [hmark]
      exact hhash _ hv
    exact iff_of_false hne hv

/-- Writes keep the fingerprint true exactly when none of them blanks a value. -/
theorem writes_track_iff (hhash : ∀ v, v ≠ blank → hash v ≠ unmarked) (h : e.Tracks blank unmarked hash)
    (vs : List β) :
    (e.writes blank hash vs).Tracks blank unmarked hash ↔
      (vs.getLastD e.value = blank → e.value = blank ∧ ∀ v ∈ vs, v = blank) := by
  have hvalue : (e.writes blank hash vs).value = vs.getLastD e.value := writes_value
  rw [← tracks_unmarked_iff hhash h, ← writes_unmarked_iff hhash, ← hvalue]
  by_cases hv : (e.writes blank hash vs).value = blank
  · rw [Entry.Tracks, if_pos hv]
    constructor
    · intro hmark _
      exact hmark
    · intro hmark
      exact hmark hv
  · have hmark := writes_mark h hv
    rw [Entry.Tracks, if_neg hv]
    constructor
    · intro _ hb
      exact absurd hb hv
    · intro _
      exact hmark

end Fingerprints
