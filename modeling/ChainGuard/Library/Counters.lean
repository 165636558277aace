import Mathlib.Data.List.Pairwise
import ChainGuard.Library.History

/-! Tickets that only go up. A system keeps the last number accepted under each key, and a step may
accept a number under a key that is above the last one; along a run the numbers accepted under a key
increase, so none of them is accepted twice. -/
namespace Counters
open History
set_option autoImplicit false

universe u v w x

variable {σ : Type u} {ι : Type v} {κ : Type w} {ν : Type x} [DecidableEq κ] [Preorder ν]

/-- What a transition does to the last numbers, by the key and the number it accepts. -/
inductive Effect (last : σ → κ → ν) (accepted : Transition σ ι → Option (κ × ν)) (t : Transition σ ι) :
    Prop
  | kept : accepted t = none → last t.post = last t.pre → Effect last accepted t
  | accepts (k : κ) (n : ν) : accepted t = some (k, n) → last t.pre k < n →
      last t.post = Function.update (last t.pre) k n → Effect last accepted t

variable {last : σ → κ → ν} {accepted : Transition σ ι → Option (κ × ν)} {t : Transition σ ι}
  {init : σ → Prop} {step : σ → ι → σ → Prop} {hist : List (Transition σ ι)} {s : σ}

/-- A last number does not go down. -/
theorem Effect.le (h : Effect last accepted t) (k : κ) : last t.pre k ≤ last t.post k := by
  cases h with
  | kept _ hkept => rw [hkept]
  | accepts k' n _ hlt hupdate =>
    rw [hupdate, Function.update_apply]
    split
    · next heq =>
      rw [heq]
      exact hlt.le
    · exact le_rfl

theorem accepted_le (hs : ∀ s i s', step s i s' → Effect last accepted ⟨s, i, s'⟩)
    (h : Run init step hist s) {k : κ} {n : ν} (hmem : t ∈ hist) (haccepted : accepted t = some (k, n)) :
    n ≤ last s k := by
  induction h with
  | start _ => cases hmem
  | @next hist s s' i _ hstep ih =>
    have heffect := hs s i s' hstep
    rcases List.mem_cons.mp hmem with rfl | hmem
    · cases heffect with
      | kept hnone _ =>
        rw [hnone] at haccepted
        cases haccepted
      | accepts k' n' hsome _ hupdate =>
        obtain ⟨rfl, rfl⟩ := Prod.mk.inj (Option.some.inj (hsome.symm.trans haccepted))
        dsimp only at hupdate
        rw [hupdate, Function.update_self]
    · exact (ih hmem).trans (heffect.le k)

/-- A number is accepted above all those accepted under its key before it. -/
theorem increasing (hs : ∀ s i s', step s i s' → Effect last accepted ⟨s, i, s'⟩)
    (h : Run init step hist s) {earlier : List (Transition σ ι)} (hsuffix : t :: earlier <:+ hist)
    {t' : Transition σ ι} (hmem : t' ∈ earlier) {k : κ} {n n' : ν} (haccepted : accepted t = some (k, n))
    (haccepted' : accepted t' = some (k, n')) : n' < n := by
  obtain ⟨hrun, hstep⟩ := h.suffix_step hsuffix
  have hle : n' ≤ last t.pre k := accepted_le hs hrun hmem haccepted'
  cases hs _ _ _ hstep with
  | kept hnone _ =>
    have hnone : accepted t = none := hnone
    rw [hnone] at haccepted
    cases haccepted
  | accepts k₀ n₀ hsome hlt _ =>
    obtain ⟨rfl, rfl⟩ := Prod.mk.inj (Option.some.inj (hsome.symm.trans haccepted))
    exact hle.trans_lt hlt

/-- Numbers accepted under one key, newest first, go down. -/
theorem pairwise (hs : ∀ s i s', step s i s' → Effect last accepted ⟨s, i, s'⟩)
    (h : Run init step hist s) :
    (hist.filterMap accepted).Pairwise fun later earlier => later.1 = earlier.1 → earlier.2 < later.2 := by
  induction h with
  | start _ => exact List.Pairwise.nil
  | @next hist s s' i hrun hstep ih =>
    cases haccepted : accepted ⟨s, i, s'⟩ with
    | none =>
      rw [List.filterMap_cons_none haccepted]
      exact ih
    | some p =>
      rw [List.filterMap_cons_some haccepted]
      refine List.pairwise_cons.mpr ⟨fun q hq hkey => ?_, ih⟩
      obtain ⟨t', hmem, haccepted'⟩ := List.mem_filterMap.mp hq
      obtain ⟨k, n⟩ := p
      obtain ⟨k', n'⟩ := q
      obtain rfl : k = k' := hkey
      exact increasing hs (.next hrun hstep) (List.suffix_refl _) hmem haccepted haccepted'

/-- Nothing is accepted twice. -/
theorem nodup (hs : ∀ s i s', step s i s' → Effect last accepted ⟨s, i, s'⟩)
    (h : Run init step hist s) : (hist.filterMap accepted).Nodup := by
  refine (pairwise hs h).imp ?_
  rintro later earlier hlt rfl
  exact lt_irrefl _ (hlt rfl)

end Counters
