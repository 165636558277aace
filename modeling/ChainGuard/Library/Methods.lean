import Mathlib.Logic.Function.Basic

/-! Methods of an object, which may throw: what a method wrote before it throws stays written. The rules
peel a call apart into what its steps return, throw and write. -/
namespace Methods
set_option autoImplicit false

variable {σ ε α β : Type}

abbrev Method (σ ε α : Type) := ExceptT ε (StateM σ) α

/-- What a call on an object returns or throws, and the object after it. -/
def call (x : Method σ ε α) (s : σ) : Except ε α × σ := (ExceptT.run x).run s

/-- `if (c) throw e;` -/
def throwIf (c : Prop) [Decidable c] (e : ε) : Method σ ε Unit := if c then throw e else pure ()

/-- The value, or `e` is thrown. -/
def orThrow (o : Option α) (e : ε) : Method σ ε α :=
  match o with
  | some a => pure a
  | none => throw e

theorem call_bind (x : Method σ ε α) (f : α → Method σ ε β) (s : σ) :
    call (x >>= f) s = match call x s with
      | (.ok a, mid) => call (f a) mid
      | (.error e, mid) => (.error e, mid) := by
  have hrun : call (x >>= f) s = (ExceptT.bindCont f (call x s).1) (call x s).2 := rfl
  rw [hrun]
  rcases call x s with ⟨_ | _, mid⟩
  · rfl
  · rfl

@[simp] theorem call_pure (a : α) (s : σ) : call (pure a : Method σ ε α) s = (.ok a, s) := rfl

@[simp] theorem call_throw (e : ε) (s : σ) : call (throw e : Method σ ε α) s = (.error e, s) := rfl

@[simp] theorem call_get (s : σ) : call (get : Method σ ε σ) s = (.ok s, s) := rfl

@[simp] theorem call_modify (f : σ → σ) (s : σ) : call (modify f : Method σ ε Unit) s = (.ok (), f s) := rfl

theorem call_tryCatch (x : Method σ ε α) (handler : ε → Method σ ε α) (s : σ) :
    call (tryCatch x handler) s = match call x s with
      | (.ok a, mid) => (.ok a, mid)
      | (.error e, mid) => call (handler e) mid := by
  unfold call
  simp only [tryCatch, tryCatchThe, MonadExceptOf.tryCatch, ExceptT.tryCatch, ExceptT.run_mk]
  change (StateT.run (ExceptT.run x >>= _) s) = _
  rw [StateT.run_bind]
  rcases (StateT.run (ExceptT.run x) s) with ⟨_ | _, mid⟩
  · rfl
  · rfl

theorem call_throwIf (c : Prop) [Decidable c] (e : ε) (s : σ) :
    call (throwIf c e) s = if c then (.error e, s) else (.ok (), s) := by
  unfold throwIf
  split
  · rfl
  · rfl

theorem call_orThrow (o : Option α) (e : ε) (s : σ) : call (orThrow o e) s =
    match o with
    | some a => (.ok a, s)
    | none => (.error e, s) := by
  cases o with
  | none => rfl
  | some a => rfl

theorem bind_returns (x : Method σ ε α) (f : α → Method σ ε β) (s s' : σ) (b : β) :
    call (x >>= f) s = (.ok b, s') ↔ ∃ a mid, call x s = (.ok a, mid) ∧ call (f a) mid = (.ok b, s') := by
  rw [call_bind]
  rcases call x s with ⟨_ | a, mid⟩
  · simp
  · simp only [Prod.mk.injEq, Except.ok.injEq]
    constructor
    · exact fun h => ⟨a, mid, ⟨rfl, rfl⟩, h⟩
    · rintro ⟨_, _, ⟨rfl, rfl⟩, h⟩
      exact h

theorem bind_throws (x : Method σ ε α) (f : α → Method σ ε β) (s s' : σ) (e : ε) :
    call (x >>= f) s = (.error e, s') ↔ call x s = (.error e, s') ∨
      ∃ a mid, call x s = (.ok a, mid) ∧ call (f a) mid = (.error e, s') := by
  rw [call_bind]
  rcases call x s with ⟨_ | a, mid⟩
  · simp
  · simp only [Prod.mk.injEq, Except.ok.injEq, reduceCtorEq, false_and, false_or]
    constructor
    · exact fun h => ⟨a, mid, ⟨rfl, rfl⟩, h⟩
    · rintro ⟨_, _, ⟨rfl, rfl⟩, h⟩
      exact h

@[simp] theorem throwIf_returns (c : Prop) [Decidable c] (e : ε) (s s' : σ) (u : Unit) :
    call (throwIf c e) s = (.ok u, s') ↔ ¬ c ∧ s = s' := by
  unfold throwIf
  split
  · next h => simp [h]
  · next h => simp [h]

@[simp] theorem throwIf_throws (c : Prop) [Decidable c] (e e' : ε) (s s' : σ) :
    call (throwIf c e) s = (.error e', s') ↔ c ∧ e = e' ∧ s = s' := by
  unfold throwIf
  split
  · next h => simp [h]
  · next h => simp [h]

@[simp] theorem orThrow_returns (o : Option α) (e : ε) (a : α) (s s' : σ) :
    call (orThrow o e) s = (.ok a, s') ↔ o = some a ∧ s = s' := by
  cases o with
  | none => simp [orThrow]
  | some b => simp [orThrow]

@[simp] theorem orThrow_throws (o : Option α) (e e' : ε) (s s' : σ) :
    call (orThrow o e) s = (.error e', s') ↔ o = none ∧ e = e' ∧ s = s' := by
  cases o with
  | none => simp [orThrow]
  | some b => simp [orThrow]

/-! ## What a method may write -/

/-- Whether it returns or throws, the method leaves the object related to what it was. -/
def Within (R : σ → σ → Prop) (x : Method σ ε α) : Prop := ∀ s, R s (call x s).2

section Within
variable {R : σ → σ → Prop}

theorem Within.pure (hrefl : ∀ s, R s s) (a : α) : Within R (pure a : Method σ ε α) := hrefl

theorem Within.get (hrefl : ∀ s, R s s) : Within R (get : Method σ ε σ) := hrefl

theorem Within.modify {f : σ → σ} (hf : ∀ s, R s (f s)) : Within R (modify f : Method σ ε Unit) := hf

theorem Within.throwIf (hrefl : ∀ s, R s s) (c : Prop) [Decidable c] (e : ε) : Within R (throwIf c e) := by
  intro s
  unfold Methods.throwIf
  split
  · exact hrefl s
  · exact hrefl s

theorem Within.orThrow (hrefl : ∀ s, R s s) (o : Option α) (e : ε) : Within R (orThrow o e) := by
  intro s
  cases o with
  | none => exact hrefl s
  | some a => exact hrefl s

theorem Within.bind (htrans : ∀ s s' s'', R s s' → R s' s'' → R s s'') {x : Method σ ε α}
    {f : α → Method σ ε β} (hx : Within R x) (hf : ∀ a, Within R (f a)) : Within R (x >>= f) := by
  intro s
  have hfirst := hx s
  rw [call_bind]
  rcases hcall : call x s with ⟨_ | a, mid⟩
  · rwa [hcall] at hfirst
  · rw [hcall] at hfirst
    exact htrans _ _ _ hfirst (hf a mid)

/-- The same for one object, of which the rest of the method may know what the first part returned. -/
theorem bind_writes {x : Method σ ε α} {f : α → Method σ ε β} {s : σ} {P : σ → Prop}
    (hthrow : ∀ e mid, call x s = (.error e, mid) → P mid)
    (hreturn : ∀ a mid, call x s = (.ok a, mid) → P (call (f a) mid).2) : P (call (x >>= f) s).2 := by
  rw [call_bind]
  rcases hcall : call x s with ⟨e | a, mid⟩
  · exact hthrow e mid hcall
  · exact hreturn a mid hcall

end Within
end Methods
