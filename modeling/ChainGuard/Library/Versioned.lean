import Mathlib.Order.Lattice

/-! Grants that carry a version: raising one counter voids every grant made before. The counter's
untouched value 0 is read as 1, so a first increment raises nothing; whether a revocation
voids the other grants depends on that. -/
namespace Versioned
set_option autoImplicit false

universe u
variable {ι : Type u} [DecidableEq ι]

/-- The version each granted item carries, and the counter of the holder. -/
structure Store (ι : Type u) where
  grants : ι → Option ℕ
  counter : ℕ

def Store.current (g : Store ι) : ℕ := max 1 g.counter

def Store.Valid (g : Store ι) (i : ι) : Prop := g.grants i = some g.current

def Store.Bounded (g : Store ι) : Prop := ∀ i n, g.grants i = some n → 1 ≤ n ∧ n ≤ g.current

inductive Act (ι : Type u)
  | keep
  | grant (i : ι)
  | revoke (i : ι)
  | expire

inductive Step : Store ι → Act ι → Store ι → Prop
  | keep {g g' : Store ι} : g'.grants = g.grants → g'.current = g.current → Step g .keep g'
  | grant {g : Store ι} (i : ι) :
      Step g (.grant i) { g with grants := Function.update g.grants i (some g.current) }
  | revoke {g : Store ι} (i : ι) :
      Step g (.revoke i) { grants := Function.update g.grants i none, counter := g.counter + 1 }
  | expire {g g' : Store ι} : g'.grants = g.grants → g.current < g'.current → Step g .expire g'

def Act.Voids : Act ι → Prop
  | .keep | .grant _ => False
  | .revoke _ | .expire => True

/-- A revocation with the counter untouched reaches its own item only. -/
def Effective (g : Store ι) : Act ι → Prop
  | .revoke i => g.counter = 0 → ∀ j, j ≠ i → g.grants j = none
  | _ => True

variable {g g' : Store ι} {a : Act ι}

theorem Step.bounded (hb : g.Bounded) (h : Step g a g') : g'.Bounded := by
  cases h with
  | keep hgrants hcurrent =>
    intro i n hi
    rw [hcurrent]
    exact hb i n (hgrants ▸ hi)
  | grant i =>
    intro j n hj
    change Function.update g.grants i (some g.current) j = some n at hj
    change 1 ≤ n ∧ n ≤ g.current
    by_cases he : j = i
    · subst he
      rw [Function.update_self] at hj
      cases hj
      exact ⟨le_max_left .., le_rfl⟩
    · rw [Function.update_of_ne he] at hj
      exact hb j n hj
  | revoke i =>
    intro j n hj
    change Function.update g.grants i none j = some n at hj
    change 1 ≤ n ∧ n ≤ max 1 (g.counter + 1)
    by_cases he : j = i
    · subst he
      rw [Function.update_self] at hj
      cases hj
    · rw [Function.update_of_ne he] at hj
      have hbound := hb j n hj
      change 1 ≤ n ∧ n ≤ max 1 g.counter at hbound
      omega
  | expire hgrants hraised =>
    intro i n hi
    have hbound := hb i n (hgrants ▸ hi)
    exact ⟨hbound.1, by omega⟩

theorem revoke_voids_iff (hb : g.Bounded) {i : ι} (h : Step g (.revoke i) g') :
    (∀ j, ¬ g'.Valid j) ↔ Effective g (.revoke i) := by
  cases h
  constructor
  · intro hvoid hzero j hj
    by_contra hgranted
    obtain ⟨n, hn⟩ := Option.ne_none_iff_exists'.mp hgranted
    have hbound := hb j n hn
    refine hvoid j ?_
    change Function.update g.grants i none j = some (max 1 (g.counter + 1))
    change 1 ≤ n ∧ n ≤ max 1 g.counter at hbound
    rw [Function.update_of_ne hj, hn, hzero, show n = max 1 (0 + 1) by omega]
  · intro heffective j hvalid
    change Function.update g.grants i none j = some (max 1 (g.counter + 1)) at hvalid
    by_cases he : j = i
    · subst he
      rw [Function.update_self] at hvalid
      cases hvalid
    · rw [Function.update_of_ne he] at hvalid
      have hbound := hb j _ hvalid
      change 1 ≤ _ ∧ _ ≤ max 1 g.counter at hbound
      by_cases hzero : g.counter = 0
      · rw [heffective hzero j he] at hvalid
        cases hvalid
      · omega

theorem Step.valid_iff (hb : g.Bounded) (h : Step g a g') (he : Effective g a) (j : ι) :
    g'.Valid j ↔ a = .grant j ∨ (¬ a.Voids ∧ g.Valid j) := by
  cases h with
  | keep hgrants hcurrent =>
    simp only [Store.Valid, hgrants, hcurrent, Act.Voids, reduceCtorEq, not_false_eq_true, true_and,
      false_or]
  | grant i =>
    simp only [Store.Valid, Store.current, Act.Voids, Act.grant.injEq, not_false_eq_true, true_and]
    by_cases hj : j = i
    · subst hj
      simp
    · rw [Function.update_of_ne hj]
      exact ⟨Or.inr, fun h => h.resolve_left (Ne.symm hj)⟩
  | revoke i =>
    refine iff_of_false ((revoke_voids_iff hb (.revoke i)).mpr he j) ?_
    rintro (h | h)
    · cases h
    · exact h.1 trivial
  | expire hgrants hraised =>
    refine iff_of_false (fun hvalid => ?_) ?_
    · rw [Store.Valid, hgrants] at hvalid
      have hbound := hb j _ hvalid
      omega
    · rintro (h | h)
      · cases h
      · exact h.1 trivial

end Versioned
