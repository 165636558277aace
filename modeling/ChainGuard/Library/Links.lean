import Mathlib.Data.Option.Basic

/-! Registries that keep one fact in two partial maps. Two names linked to each other are entered in
both directions, and a value held by one of them may be cached with the other. For each kind of
write, exactly when it keeps the maps consistent. -/
namespace Links
set_option autoImplicit false

universe u v w

variable {α : Type u} {β : Type v} {κ : Type w}

/-! ## Links in both directions -/

section Inverse
variable [DecidableEq α] [DecidableEq β] {f : α → Option β} {g : β → Option α}

/-- The links read in one direction are those read in the other. -/
def Inverse (f : α → Option β) (g : β → Option α) : Prop := ∀ a b, f a = some b ↔ g b = some a

/-- Neither name is linked to a third one. -/
def Free (f : α → Option β) (g : β → Option α) (a : α) (b : β) : Prop :=
  (∀ b', f a = some b' → b' = b) ∧ ∀ a', g b = some a' → a' = a

theorem Inverse.link (h : Inverse f g) {a : α} {b : β} (hfree : Free f g a b) :
    Inverse (Function.update f a (some b)) (Function.update g b (some a)) := by
  intro a' b'
  by_cases ha : a' = a
  · by_cases hb : b' = b
    · simp [ha, hb]
    · have hne : g b' ≠ some a := fun hg => hb (hfree.1 b' ((h a b').mpr hg))
      rw [ha, Function.update_self, Function.update_of_ne hb, Option.some.injEq]
      exact iff_of_false (Ne.symm hb) hne
  · by_cases hb : b' = b
    · have hne : f a' ≠ some b := fun hf => ha (hfree.2 a' ((h a' b).mp hf))
      rw [hb, Function.update_self, Function.update_of_ne ha, Option.some.injEq]
      exact iff_of_false hne (Ne.symm ha)
    · rw [Function.update_of_ne ha, Function.update_of_ne hb]
      exact h a' b'

/-- A link of another name would survive in one direction only. -/
theorem Inverse.free_of_link (h : Inverse f g) {a : α} {b : β}
    (hlink : Inverse (Function.update f a (some b)) (Function.update g b (some a))) : Free f g a b := by
  constructor
  · intro b' hf
    by_contra hb
    have hkept : Function.update g b (some a) b' = some a := by
      rw [Function.update_of_ne hb]
      exact (h a b').mp hf
    have hback := (hlink a b').mpr hkept
    rw [Function.update_self, Option.some.injEq] at hback
    exact hb hback.symm
  · intro a' hg
    by_contra ha
    have hkept : Function.update f a (some b) a' = some b := by
      rw [Function.update_of_ne ha]
      exact (h a' b).mpr hg
    have hback := (hlink a' b).mp hkept
    rw [Function.update_self, Option.some.injEq] at hback
    exact ha hback.symm

theorem Inverse.link_iff (h : Inverse f g) (a : α) (b : β) :
    Inverse (Function.update f a (some b)) (Function.update g b (some a)) ↔ Free f g a b :=
  ⟨h.free_of_link, h.link⟩

end Inverse

/-! ## Cached values -/

section Cache
variable {link : α → Option β} {cache : α → Option κ} {own : β → Option κ}

/-- What is served for a name: its cached value, or else the value of the name it is linked to. -/
def served (link : α → Option β) (cache : α → Option κ) (own : β → Option κ) (a : α) : Option κ :=
  (cache a).or ((link a).bind own)

/-- What is cached for a linked name is the value of the other name. -/
def Coherent (link : α → Option β) (cache : α → Option κ) (own : β → Option κ) : Prop :=
  ∀ a b, link a = some b → ∀ p ∈ cache a, ∀ k ∈ own b, p = k

theorem coherent_iff_served : Coherent link cache own ↔
    ∀ a b k, link a = some b → own b = some k → served link cache own a = some k := by
  constructor
  · intro h a b k hlink hown
    cases hcache : cache a with
    | none => simp [served, hcache, hlink, hown]
    | some p =>
      have hp : p = k := h a b hlink p hcache k hown
      simp [served, hcache, hp]
  · intro h a b hlink p hp k hk
    have hserved := h a b k hlink hk
    rw [served, Option.mem_def.mp hp, Option.some_or, Option.some.injEq] at hserved
    exact hserved

/-- The value of a name changes: whatever is cached for the names linked to it must be the new one. -/
theorem Coherent.own_iff [DecidableEq β] (h : Coherent link cache own) (b : β) (k : κ) :
    Coherent link cache (Function.update own b (some k)) ↔
      ∀ a, link a = some b → ∀ p ∈ cache a, p = k := by
  constructor
  · intro hnew a hlink p hp
    exact hnew a b hlink p hp k (by rw [Function.update_self, Option.mem_def])
  · intro hnew a b' hlink p hp k' hk'
    by_cases hb : b' = b
    · subst hb
      rw [Function.update_self, Option.mem_some_iff] at hk'
      rw [← hk']
      exact hnew a hlink p hp
    · rw [Function.update_of_ne hb] at hk'
      exact h a b' hlink p hp k' hk'

/-- A name is linked: what is cached for it must be the value of its new partner. -/
theorem Coherent.link_iff [DecidableEq α] (h : Coherent link cache own) (a : α) (b : β) :
    Coherent (Function.update link a (some b)) cache own ↔ ∀ p ∈ cache a, ∀ k ∈ own b, p = k := by
  constructor
  · intro hnew
    exact hnew a b (Function.update_self ..)
  · intro hnew a' b' hlink
    by_cases ha : a' = a
    · subst ha
      rw [Function.update_self, Option.some.injEq] at hlink
      rw [← hlink]
      exact hnew
    · rw [Function.update_of_ne ha] at hlink
      exact h a' b' hlink

/-- A name is linked and a value entered for both: the other names of the partner must not have an
older one cached. -/
theorem Coherent.enter_iff [DecidableEq α] [DecidableEq β] (h : Coherent link cache own) (a : α) (b : β) (k : κ) :
    Coherent (Function.update link a (some b)) (Function.update cache a (some k))
      (Function.update own b (some k)) ↔
      ∀ a', a' ≠ a → link a' = some b → ∀ p ∈ cache a', p = k := by
  constructor
  · intro hnew a' ha hlink p hp
    refine hnew a' b ?_ p ?_ k ?_
    · rw [Function.update_of_ne ha, hlink]
    · rw [Function.update_of_ne ha]
      exact hp
    · rw [Function.update_self, Option.mem_def]
  · intro hnew a' b' hlink p hp k' hk'
    by_cases ha : a' = a
    · subst ha
      rw [Function.update_self, Option.some.injEq] at hlink
      rw [← hlink, Function.update_self, Option.mem_some_iff] at hk'
      rw [Function.update_self, Option.mem_some_iff] at hp
      rw [← hp, hk']
    · rw [Function.update_of_ne ha] at hlink hp
      by_cases hb : b' = b
      · subst hb
        rw [Function.update_self, Option.mem_some_iff] at hk'
        rw [← hk']
        exact hnew a' ha hlink p hp
      · rw [Function.update_of_ne hb] at hk'
        exact h a' b' hlink p hp k' hk'

end Cache
end Links
