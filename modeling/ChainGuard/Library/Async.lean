import ChainGuard.Library.History
import ChainGuard.Library.Methods

/-! Asynchronous methods: a program that accesses the object it belongs to and gives way to others at each of its
awaits. It is run alone, as a method, or its pieces are interleaved with those of other programs. -/
namespace Async
open Methods History
set_option autoImplicit false

variable {σ X ε α β : Type}

/-- `X` is what an await is answered with. -/
inductive Program (σ X ε α : Type)
  | done (result : Except ε α)
  /-- The object is written, and the rest is given the object as it was. -/
  | act (write : σ → σ) (rest : σ → Program σ X ε α)
  | await (rest : X → Program σ X ε α)

namespace Program

/-- The second program is given what the first returns or throws. -/
def andThen (p : Program σ X ε α) (f : Except ε α → Program σ X ε β) : Program σ X ε β :=
  match p with
  | done result => f result
  | act write rest => act write fun s => (rest s).andThen f
  | await rest => await fun x => (rest x).andThen f

def onReturn (f : α → Program σ X ε β) : Except ε α → Program σ X ε β
  | .ok a => f a
  | .error e => done (.error e)

def onThrow (handler : ε → Program σ X ε α) : Except ε α → Program σ X ε α
  | .ok a => done (.ok a)
  | .error e => handler e

instance : Monad (Program σ X ε) where
  pure a := done (.ok a)
  bind p f := p.andThen (onReturn f)

instance : MonadExceptOf ε (Program σ X ε) where
  throw e := done (.error e)
  tryCatch p handler := p.andThen (onThrow handler)

instance : MonadStateOf σ (Program σ X ε) where
  get := act id fun s => done (.ok s)
  set s := act (fun _ => s) fun _ => done (.ok ())
  modifyGet f := act (fun s => (f s).2) fun s => done (.ok (f s).1)

/-- `await`: others run before the answer comes. -/
def answer : Program σ X ε X := await fun x => done (.ok x)

/-- The value, or `e` is thrown. -/
def orThrow (o : Option α) (e : ε) : Program σ X ε α :=
  match o with
  | some a => pure a
  | none => throw e

/-- `if (c) throw e;` -/
def throwIf (c : Prop) [Decidable c] (e : ε) : Program σ X ε Unit := if c then throw e else pure ()

def rethrow : Option ε → Program σ X ε Unit
  | some e => throw e
  | none => pure ()

/-! ## A program alone -/

/-- All awaits are answered with `x`, and nothing else runs meanwhile. -/
def alone (x : X) : Program σ X ε α → Method σ ε α
  | done (.ok a) => pure a
  | done (.error e) => throw e
  | act write rest => do
    let s ← get
    set (write s)
    (rest s).alone x
  | await rest => (rest x).alone x

section Alone
variable (x : X) (s : σ)

theorem call_andThen (p : Program σ X ε α) (f : Except ε α → Program σ X ε β) :
    call ((p.andThen f).alone x) s = call ((f (call (p.alone x) s).1).alone x) (call (p.alone x) s).2 := by
  induction p generalizing s with
  | done result =>
    cases result with
    | error e => rfl
    | ok a => rfl
  | act write rest ih => exact ih s (write s)
  | await rest ih => exact ih x s

theorem call_alone_bind (p : Program σ X ε α) (f : α → Program σ X ε β) :
    call ((p >>= f).alone x) s = match call (p.alone x) s with
      | (.ok a, mid) => call ((f a).alone x) mid
      | (.error e, mid) => (.error e, mid) := by
  refine (call_andThen x s p (onReturn f)).trans ?_
  rcases call (p.alone x) s with ⟨_ | _, mid⟩
  · rfl
  · rfl

theorem call_alone_tryCatch (p : Program σ X ε α) (handler : ε → Program σ X ε α) :
    call ((tryCatch p handler).alone x) s = match call (p.alone x) s with
      | (.ok a, mid) => (.ok a, mid)
      | (.error e, mid) => call ((handler e).alone x) mid := by
  refine (call_andThen x s p (onThrow handler)).trans ?_
  rcases call (p.alone x) s with ⟨_ | _, mid⟩
  · rfl
  · rfl

@[simp] theorem call_alone_pure (a : α) : call ((pure a : Program σ X ε α).alone x) s = (.ok a, s) := rfl

@[simp] theorem call_alone_throw (e : ε) : call ((throw e : Program σ X ε α).alone x) s = (.error e, s) := rfl

@[simp] theorem call_alone_get : call ((get : Program σ X ε σ).alone x) s = (.ok s, s) := rfl

@[simp] theorem call_alone_modify (f : σ → σ) :
    call ((modify f : Program σ X ε Unit).alone x) s = (.ok (), f s) := rfl

@[simp] theorem call_alone_answer : call ((answer : Program σ X ε X).alone x) s = (.ok x, s) := rfl

end Alone

/-! ## What the pieces of a program may write -/

/-- Every access of the program leaves the object related to what it was. -/
def Within (R : σ → σ → Prop) : Program σ X ε α → Prop
  | done _ => True
  | act write rest => ∀ s, R s (write s) ∧ (rest s).Within R
  | await rest => ∀ x, (rest x).Within R

section Within
variable {R : σ → σ → Prop}

theorem Within.mono {R' : σ → σ → Prop} (hR : ∀ s s', R s s' → R' s s') {p : Program σ X ε α} (h : p.Within R) :
    p.Within R' := by
  induction p with
  | done _ => trivial
  | act write rest ih => exact fun s => ⟨hR _ _ (h s).1, ih s (h s).2⟩
  | await rest ih => exact fun x => ih x (h x)

theorem Within.andThen {p : Program σ X ε α} {f : Except ε α → Program σ X ε β} (hp : p.Within R)
    (hf : ∀ result, (f result).Within R) : (p.andThen f).Within R := by
  induction p with
  | done result => exact hf result
  | act write rest ih => exact fun s => ⟨(hp s).1, ih s (hp s).2⟩
  | await rest ih => exact fun x => ih x (hp x)

theorem Within.bind {p : Program σ X ε α} {f : α → Program σ X ε β} (hp : p.Within R)
    (hf : ∀ a, (f a).Within R) : (p >>= f).Within R := by
  refine hp.andThen ?_
  rintro (e | a)
  · trivial
  · exact hf a

theorem Within.tryCatch {p : Program σ X ε α} {handler : ε → Program σ X ε α} (hp : p.Within R)
    (hf : ∀ e, (handler e).Within R) : (tryCatch p handler).Within R := by
  refine hp.andThen ?_
  rintro (e | a)
  · exact hf e
  · trivial

theorem within_pure (a : α) : (pure a : Program σ X ε α).Within R := trivial

theorem within_throw (e : ε) : (throw e : Program σ X ε α).Within R := trivial

theorem within_get (hrefl : ∀ s, R s s) : (get : Program σ X ε σ).Within R := fun s => ⟨hrefl s, trivial⟩

theorem within_modify {f : σ → σ} (hf : ∀ s, R s (f s)) : (modify f : Program σ X ε Unit).Within R :=
  fun s => ⟨hf s, trivial⟩

theorem within_answer : (answer : Program σ X ε X).Within R := fun _ => trivial

theorem within_orThrow (o : Option α) (e : ε) : (orThrow o e : Program σ X ε α).Within R := by
  cases o with
  | none => trivial
  | some a => trivial

theorem within_throwIf (c : Prop) [Decidable c] (e : ε) : (throwIf c e : Program σ X ε Unit).Within R := by
  unfold throwIf
  split
  · trivial
  · trivial

theorem within_rethrow (o : Option ε) : (rethrow o : Program σ X ε Unit).Within R := by
  cases o with
  | none => trivial
  | some e => trivial

end Within

/-! ## Pieces -/

def advance : Program σ X ε α → σ → σ × Program σ X ε α
  | done result, s => (s, done result)
  | act write rest, s => (rest s).advance (write s)
  | await rest, s => (s, await rest)

theorem Within.advance {R : σ → σ → Prop} (hrefl : ∀ s, R s s) (htrans : ∀ s s' s'', R s s' → R s' s'' → R s s'')
    {p : Program σ X ε α} (h : p.Within R) (s : σ) : R s (p.advance s).1 ∧ (p.advance s).2.Within R := by
  induction p generalizing s with
  | done result => exact ⟨hrefl s, h⟩
  | act write rest ih =>
    obtain ⟨hrest, hwithin⟩ := ih s (h s).2 (write s)
    exact ⟨htrans _ _ _ (h s).1 hrest, hwithin⟩
  | await rest ih => exact ⟨hrefl s, h⟩

/-- An access of the piece from `s` on makes `P` true. -/
def Achieves (P : σ → Prop) : Program σ X ε α → σ → Prop
  | act write rest, s => (¬ P s ∧ P (write s)) ∨ (rest s).Achieves P (write s)
  | _, _ => False

theorem achieves_of_advance {P : σ → Prop} {p : Program σ X ε α} {s : σ} (hbefore : ¬ P s) (hafter : P (p.advance s).1) :
    p.Achieves P s := by
  induction p generalizing s with
  | done result => exact (hbefore hafter).elim
  | act write rest ih =>
    by_cases hwritten : P (write s)
    · exact .inl ⟨hbefore, hwritten⟩
    · exact .inr (ih s hwritten hafter)
  | await rest ih => exact (hbefore hafter).elim

def isDone : Program σ X ε α → Bool
  | done _ => true
  | _ => false

/-- The piece after an await that is answered with `x`. -/
def resume (x : X) : Program σ X ε α → Program σ X ε α
  | await rest => rest x
  | p => p

theorem Within.resume {R : σ → σ → Prop} {p : Program σ X ε α} (h : p.Within R) (x : X) : (p.resume x).Within R := by
  cases p with
  | done _ => exact h
  | act _ _ => exact h
  | await rest => exact h x

end Program

/-! ## Interleaved programs -/

/-- The object and the operations under way, each at one of its awaits. -/
structure System (Op σ X ε α : Type) where
  shared : σ
  next : ℕ := 0
  running : ℕ → Option (Op × Program σ X ε α) := fun _ => none

inductive Event (Op X : Type)
  | call (op : Op)
  | resume (id : ℕ) (x : X)

variable {Op : Type}

def System.settle (s : System Op σ X ε α) (id : ℕ) (op : Op) (piece : σ × Program σ X ε α) : System Op σ X ε α :=
  { s with
    shared := piece.1
    running := Function.update s.running id (if piece.2.isDone then none else some (op, piece.2)) }

/-- An operation runs at once until its first await, and from there, when it is resumed, until the next. -/
def exec (program : Op → Program σ X ε α) (s : System Op σ X ε α) : Event Op X → System Op σ X ε α
  | .call op => { s.settle s.next op ((program op).advance s.shared) with next := s.next + 1 }
  | .resume id x =>
    match s.running id with
    | some (op, p) => s.settle id op ((p.resume x).advance s.shared)
    | none => s

abbrev Steps (program : Op → Program σ X ε α) (s : System Op σ X ε α) (e : Event Op X)
    (s' : System Op σ X ε α) : Prop := exec program s e = s'

/-- The operation that a piece belongs to. -/
def System.piece (s : System Op σ X ε α) : Event Op X → Option (ℕ × Op)
  | .call op => some (s.next, op)
  | .resume id _ => (s.running id).map fun task => (id, task.1)

/-- The transition calls the operation `id`. -/
def Starts (id : ℕ) (op : Op) (t : Transition (System Op σ X ε α) (Event Op X)) : Prop :=
  t.pre.next = id ∧ t.label = .call op

/-- The piece that the event runs makes `P` true. -/
def System.Achieves (program : Op → Program σ X ε α) (P : σ → Prop) (s : System Op σ X ε α) : Event Op X → Prop
  | .call op => (program op).Achieves P s.shared
  | .resume id x => ∃ op p, s.running id = some (op, p) ∧ (p.resume x).Achieves P s.shared

/-- What is left of each operation under way is within its relation. -/
def System.Within (R : Op → σ → σ → Prop) (s : System Op σ X ε α) : Prop :=
  ∀ id op p, s.running id = some (op, p) → p.Within (R op)

section Interleaved
variable {program : Op → Program σ X ε α} {R : Op → σ → σ → Prop} {s s' : System Op σ X ε α} {e : Event Op X}

theorem System.Within.settle (h : s.Within R) {id : ℕ} {op : Op} {piece : σ × Program σ X ε α}
    (hpiece : piece.2.Within (R op)) : (s.settle id op piece).Within R := by
  intro id' op' p' hrunning
  simp only [System.settle, Function.update_apply] at hrunning
  split at hrunning
  · split at hrunning
    · cases hrunning
    · obtain ⟨rfl, rfl⟩ := Prod.mk.inj (Option.some.inj hrunning)
      exact hpiece
  · exact h id' op' p' hrunning

/-- Where every operation is within its relation after its first piece, so is what is left of those under way,
and a later piece relates the object before and after it. -/
theorem Steps.within_resumed (hstep : Steps program s e s') (hrefl : ∀ op s, R op s s)
    (htrans : ∀ op s s' s'', R op s s' → R op s' s'' → R op s s'')
    (hfirst : ∀ op s, ((program op).advance s).2.Within (R op)) (h : s.Within R) :
    s'.Within R ∧ ∀ id x op p, e = .resume id x → s.running id = some (op, p) → R op s.shared s'.shared := by
  subst hstep
  cases e with
  | call op => exact ⟨h.settle (hfirst op s.shared), nofun⟩
  | resume id x =>
    cases hrunning : s.running id with
    | none =>
      have hexec : exec program s (.resume id x) = s := by simp only [exec, hrunning]
      rw [hexec]
      refine ⟨h, ?_⟩
      rintro _ _ op p ⟨⟩ hrunning'
      rw [hrunning] at hrunning'
      cases hrunning'
    | some task =>
      obtain ⟨op, p⟩ := task
      obtain ⟨hrelates, hwithin⟩ := ((h id op p hrunning).resume x).advance (hrefl op) (htrans op) s.shared
      simp only [exec, hrunning]
      refine ⟨h.settle hwithin, ?_⟩
      rintro _ _ op' p' ⟨⟩ hrunning'
      obtain ⟨rfl, rfl⟩ := Prod.mk.inj (Option.some.inj (hrunning.symm.trans hrunning'))
      exact hrelates

/-- A piece relates the object before and after it as its operation does. -/
theorem Steps.within (hstep : Steps program s e s') (hrefl : ∀ op s, R op s s)
    (htrans : ∀ op s s' s'', R op s s' → R op s' s'' → R op s s'') (hprogram : ∀ op, (program op).Within (R op))
    (h : s.Within R) :
    s'.Within R ∧ ∀ id op, s.piece e = some (id, op) → R op s.shared s'.shared := by
  have hfirst := fun op s => (hprogram op).advance (hrefl op) (htrans op) s
  obtain ⟨hwithin, hresumed⟩ := hstep.within_resumed hrefl htrans (fun op s => (hfirst op s).2) h
  refine ⟨hwithin, ?_⟩
  intro id op hpiece
  cases e with
  | call op' =>
    obtain ⟨_, rfl⟩ := Prod.mk.inj (Option.some.inj hpiece)
    subst hstep
    exact (hfirst op' s.shared).1
  | resume id' x =>
    obtain ⟨⟨op', p⟩, hrunning, heq⟩ := Option.map_eq_some_iff.mp hpiece
    obtain ⟨rfl, rfl⟩ := Prod.mk.inj heq
    exact hresumed id' x op' p rfl hrunning

/-- An answer that no operation waits for changes nothing. -/
theorem Steps.idle (hstep : Steps program s e s') (hpiece : s.piece e = none) : s' = s := by
  subst hstep
  cases e with
  | call op => cases hpiece
  | resume id x => simp only [exec, Option.map_eq_none_iff.mp hpiece]

theorem Steps.achieves (hstep : Steps program s e s') {P : σ → Prop} (hbefore : ¬ P s.shared) (hafter : P s'.shared) :
    s.Achieves program P e := by
  subst hstep
  cases e with
  | call op => exact Program.achieves_of_advance hbefore hafter
  | resume id x =>
    cases hrunning : s.running id with
    | none =>
      simp only [exec, hrunning] at hafter
      exact (hbefore hafter).elim
    | some task =>
      simp only [exec, hrunning] at hafter
      exact ⟨task.1, task.2, hrunning, Program.achieves_of_advance hbefore hafter⟩

/-- What is under way after a step was before it, unless the step calls it. -/
theorem Steps.running (hstep : Steps program s e s') {id : ℕ} {op : Op} {p' : Program σ X ε α}
    (h : s'.running id = some (op, p')) : Starts id op ⟨s, e, s'⟩ ∨ ∃ p, s.running id = some (op, p) := by
  have hsettled : ∀ {id' op' piece}, (s.settle id' op' piece).running id = some (op, p') →
      (id = id' ∧ op = op') ∨ ∃ p, s.running id = some (op, p) := by
    intro id' op' piece hrunning
    simp only [System.settle, Function.update_apply] at hrunning
    split at hrunning
    · next heq =>
      split at hrunning
      · cases hrunning
      · exact .inl ⟨heq, (Prod.mk.inj (Option.some.inj hrunning)).1.symm⟩
    · exact .inr ⟨p', hrunning⟩
  subst hstep
  cases e with
  | call op' =>
    rcases hsettled h with ⟨rfl, rfl⟩ | hbefore
    · exact .inl ⟨rfl, rfl⟩
    · exact .inr hbefore
  | resume id' x =>
    right
    cases hrunning : s.running id' with
    | none =>
      simp only [exec, hrunning] at h
      exact ⟨p', h⟩
    | some task =>
      simp only [exec, hrunning] at h
      rcases hsettled h with ⟨rfl, rfl⟩ | hbefore
      · exact ⟨task.2, hrunning⟩
      · exact hbefore

/-- An operation under way has been so since it was called. -/
theorem running_since {init : System Op σ X ε α → Prop} (h0 : ∀ s, init s → s.running = fun _ => none)
    {hist : List (Transition (System Op σ X ε α) (Event Op X))} (h : Run init (Steps program) hist s) {id : ℕ} {op : Op}
    {p : Program σ X ε α} (hrunning : s.running id = some (op, p)) :
    Since (fun t => t.pre.running id ≠ none) (Starts id op) hist := by
  induction h generalizing p with
  | start hi =>
    rw [h0 _ hi] at hrunning
    cases hrunning
  | next _ hstep ih =>
    rcases hstep.running hrunning with hstarts | ⟨p', hbefore⟩
    · exact .inl hstarts
    · exact .inr ⟨fun hnone => Option.some_ne_none _ (hbefore.symm.trans hnone), ih hbefore⟩

end Interleaved
end Async
