import Mathlib.Data.List.Pairwise

/-! Calls that nest and may fail. An open call is a frame with the world it started from, to which a
failure takes everything back, the calls made inside included. Rules for what holds of the world and of
every world that may come back, and for what holds throughout a call. -/
namespace CallStack
set_option autoImplicit false

universe u v

variable {κ : Type u} {W : Type v}

/-- An open call. -/
structure Frame (κ : Type u) (W : Type v) where
  label : κ
  saved : W

/-- A world in the middle of calls, the innermost first. -/
structure Stacked (κ : Type u) (W : Type v) where
  world : W
  frames : List (Frame κ W)

/-- The moves of a system of calls: inside a call, into a call, and out of the innermost one. -/
inductive Move (inside : W → W → Prop) (enter : κ → W → W → Prop) (leave : κ → W → W → W → Prop) :
    Stacked κ W → Stacked κ W → Prop
  | inside {w w' : W} {fs : List (Frame κ W)} : inside w w' → Move inside enter leave ⟨w, fs⟩ ⟨w', fs⟩
  | enter {k : κ} {w w' : W} {fs : List (Frame κ W)} :
      enter k w w' → Move inside enter leave ⟨w, fs⟩ ⟨w', ⟨k, w⟩ :: fs⟩
  | leave {k : κ} {saved w w' : W} {fs : List (Frame κ W)} :
      leave k saved w w' → Move inside enter leave ⟨w, ⟨k, saved⟩ :: fs⟩ ⟨w', fs⟩
  | fail {k : κ} {saved w : W} {fs : List (Frame κ W)} :
      Move inside enter leave ⟨w, ⟨k, saved⟩ :: fs⟩ ⟨saved, fs⟩

variable {inside : W → W → Prop} {enter : κ → W → W → Prop} {leave : κ → W → W → W → Prop} {s s' : Stacked κ W}

/-! ## Worlds -/

/-- The world and all that may come back satisfy `I`. -/
structure Everywhere (I : W → Prop) (s : Stacked κ W) : Prop where
  world : I s.world
  saved : ∀ f ∈ s.frames, I f.saved

theorem everywhere_nil {I : W → Prop} {w : W} (h : I w) : Everywhere I (⟨w, []⟩ : Stacked κ W) :=
  ⟨h, fun _ hf => absurd hf List.not_mem_nil⟩

/-- An invariant of worlds, whether calls succeed or fail. -/
theorem Everywhere.move {I : W → Prop} (h : Everywhere I s) (hmove : Move inside enter leave s s')
    (hinside : ∀ w w', inside w w' → I w → I w') (henter : ∀ k w w', enter k w w' → I w → I w')
    (hleave : ∀ k saved w w', leave k saved w w' → I w → I w') : Everywhere I s' := by
  obtain ⟨hworld, hsaved⟩ := h
  cases hmove with
  | inside hstep => exact ⟨hinside _ _ hstep hworld, hsaved⟩
  | enter hstep => exact ⟨henter _ _ _ hstep hworld, List.forall_mem_cons.mpr ⟨hworld, hsaved⟩⟩
  | leave hstep => exact ⟨hleave _ _ _ _ hstep hworld, (List.forall_mem_cons.mp hsaved).2⟩
  | fail =>
    obtain ⟨htop, hrest⟩ := List.forall_mem_cons.mp hsaved
    exact ⟨htop, hrest⟩

/-! ## Calls -/

/-- Each open call has `During` between the world it started from and every world inside it. -/
structure Held (During : κ → W → W → Prop) (s : Stacked κ W) : Prop where
  world : ∀ f ∈ s.frames, During f.label f.saved s.world
  saved : s.frames.Pairwise fun inner outer => During outer.label outer.saved inner.saved

theorem held_nil {During : κ → W → W → Prop} (w : W) : Held During (⟨w, []⟩ : Stacked κ W) :=
  ⟨fun _ hf => absurd hf List.not_mem_nil, .nil⟩

/-- The way out of an inner call may use what holds during it, and that it started inside the outer. -/
theorem Held.move {During : κ → W → W → Prop} (h : Held During s) (hmove : Move inside enter leave s s')
    (hinside : ∀ k saved w w', inside w w' → During k saved w → During k saved w')
    (hnew : ∀ k w w', enter k w w' → During k w w')
    (henter : ∀ k' k saved w w', enter k' w w' → During k saved w → During k saved w')
    (hleave : ∀ k' saved' k saved w w', leave k' saved' w w' → During k' saved' w → During k saved saved' →
      During k saved w → During k saved w') : Held During s' := by
  obtain ⟨hworld, hsaved⟩ := h
  cases hmove with
  | inside hstep => exact ⟨fun f hf => hinside _ _ _ _ hstep (hworld f hf), hsaved⟩
  | enter hstep =>
    refine ⟨List.forall_mem_cons.mpr ⟨hnew _ _ _ hstep, ?_⟩, List.pairwise_cons.mpr ⟨hworld, hsaved⟩⟩
    exact fun f hf => henter _ _ _ _ _ hstep (hworld f hf)
  | leave hstep =>
    obtain ⟨htop, hrest⟩ := List.forall_mem_cons.mp hworld
    obtain ⟨hbelow, hpairs⟩ := List.pairwise_cons.mp hsaved
    exact ⟨fun f hf => hleave _ _ _ _ _ _ hstep htop (hbelow f hf) (hrest f hf), hpairs⟩
  | fail =>
    obtain ⟨hbelow, hpairs⟩ := List.pairwise_cons.mp hsaved
    exact ⟨hbelow, hpairs⟩

end CallStack
