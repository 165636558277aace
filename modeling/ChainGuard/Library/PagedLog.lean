import ChainGuard.Library.History
import Mathlib.Data.List.DropRight
import Mathlib.Data.List.Nodup

/-! A log that is read page by page through a cursor, by a reader that moves its cursor only past the records that
it accepts. -/
namespace PagedLog
open History
set_option autoImplicit false

universe u v
variable {α : Type u} {κ : Type v} (key : α → κ) (log : List α) (accepted : α → Bool)

/-! ## Pages -/

section Pages
variable [DecidableEq κ]

/-- The records after the one that the cursor names; all of them without a cursor. -/
def after : Option κ → List α
  | none => log
  | some cursor => (log.dropWhile fun x => key x ≠ cursor).tail

/-- The page lists the first records after the cursor, at most `limit` of them, and some when there are any. -/
structure Page (limit : ℕ) (cursor : Option κ) (page : List α) : Prop where
  ordered : page <+: after key log cursor
  bounded : page.length ≤ limit
  exhausted : page = [] → after key log cursor = []

theorem page_take {limit : ℕ} (hlimit : 1 ≤ limit) (cursor : Option κ) :
    Page key log limit cursor ((after key log cursor).take limit) := by
  refine ⟨List.take_prefix _ _, List.length_take_le _ _, fun hnone => ?_⟩
  rcases List.take_eq_nil_iff.mp hnone with hzero | hnone
  · omega
  · exact hnone

variable {key log}

theorem after_suffix (cursor : Option κ) : after key log cursor <:+ log := by
  cases cursor with
  | none => exact List.suffix_refl _
  | some cursor => exact (List.tail_suffix _).trans (List.dropWhile_suffix _)

theorem after_done {done rest : List α} (hunique : ((done ++ rest).map key).Nodup) :
    after key (done ++ rest) (done.getLast?.map key) = rest := by
  rcases List.eq_nil_or_concat' done with rfl | ⟨before, x, rfl⟩
  · rfl
  have hfirst : ∀ y ∈ before, decide (key y ≠ key x) = true := by
    intro y hy
    rw [List.append_assoc, List.map_append] at hunique
    have hdisjoint := List.disjoint_of_nodup_append hunique
    exact decide_eq_true fun hkey => hdisjoint (List.mem_map_of_mem hy) (by simp [hkey])
  rw [List.getLast?_concat, Option.map_some, after, List.append_assoc, List.dropWhile_append_of_pos hfirst]
  simp

end Pages

/-! ## The reader -/

structure Reader (κ : Type v) where
  cursor : Option κ := none
  received : List κ := []

/-- The reader receives the accepted records of a page, and its cursor stays on the last of them. -/
def Reader.read (r : Reader κ) (page : List α) : Reader κ where
  cursor := ((page.filter accepted).getLast?.map key).or r.cursor
  received := r.received ++ (page.filter accepted).map key

def ReaderRun [DecidableEq κ] (limit : ℕ) : List (Transition (Reader κ) (List α)) → Reader κ → Prop :=
  Run (· = {}) fun r page r' => Page key log limit r.cursor page ∧ r' = r.read key accepted page

/-- The reader is through with `done`. -/
structure Reader.Through (r : Reader κ) (done rest : List α) : Prop where
  split : done ++ rest = log
  cursor : r.cursor = done.getLast?.map key
  received : r.received = (done.filter accepted).map key

def EndsAccepted (page : List α) : Prop := ∀ last, page.getLast? = some last → accepted last = true

/-- What was received is a part of the accepted records in their order, and all of them after as many pages as the log
has records; after a page with records the cursor names the last of these. -/
structure Delivered (pages : List (List α)) (r : Reader κ) : Prop where
  inOrder : r.received <+: (log.filter accepted).map key
  atLast : ∀ page earlier last, pages = page :: earlier → page.getLast? = some last → r.cursor = some (key last)
  complete : log.length ≤ pages.length → r.received = (log.filter accepted).map key

def kept (page : List α) : List α := page.rdropWhile fun x => !accepted x

variable {key log accepted}

theorem kept_isPrefix (page : List α) : kept accepted page <+: page := List.rdropWhile_prefix _ _

@[simp] theorem kept_nil : kept accepted [] = [] := List.rdropWhile_nil _

theorem kept_concat (page : List α) (x : α) :
    kept accepted (page ++ [x]) = if accepted x then page ++ [x] else kept accepted page := by
  rw [kept, List.rdropWhile_concat]
  cases accepted x <;> rfl

theorem filter_kept (page : List α) : (kept accepted page).filter accepted = page.filter accepted := by
  induction page using List.reverseRecOn with
  | nil => rw [kept_nil]
  | append_singleton page x ih =>
    rw [kept_concat]
    split
    · rfl
    · next hx => rw [ih, List.filter_append, List.filter_cons_of_neg hx, List.filter_nil, List.append_nil]

theorem getLast?_kept (page : List α) : (kept accepted page).getLast? = (page.filter accepted).getLast? := by
  induction page using List.reverseRecOn with
  | nil => rw [kept_nil]; rfl
  | append_singleton page x ih =>
    rw [kept_concat, List.filter_append]
    split
    · next hx => rw [List.filter_cons_of_pos hx, List.filter_nil, List.getLast?_concat, List.getLast?_concat]
    · next hx => rw [ih, List.filter_cons_of_neg hx, List.filter_nil, List.append_nil]

theorem kept_eq_self {page : List α} : kept accepted page = page ↔ EndsAccepted accepted page := by
  rw [kept, List.rdropWhile_eq_self_iff]
  constructor
  · intro h last hlast
    obtain ⟨before, rfl⟩ := List.getLast?_eq_some_iff.mp hlast
    simpa using h (by simp)
  · intro h hne
    simpa using h _ (List.getLast?_eq_some_getLast hne)

/-! ## Steps -/

theorem Reader.Through.read {r : Reader κ} {done page rest : List α} (h : r.Through key log accepted done (page ++ rest)) :
    ∃ later, (r.read key accepted page).Through key log accepted (done ++ kept accepted page) later := by
  obtain ⟨dropped, hpage⟩ := @kept_isPrefix α accepted page
  refine ⟨dropped ++ rest, ?_, ?_, ?_⟩
  · rw [← h.split]
    conv_rhs => rw [← hpage]
    simp
  · rw [Reader.read, h.cursor, List.getLast?_append, getLast?_kept]
    cases (page.filter accepted).getLast? <;> rfl
  · rw [Reader.read, h.received, List.filter_append, filter_kept, List.map_append]

theorem Reader.Through.page [DecidableEq κ] (hunique : (log.map key).Nodup) {r : Reader κ} {done rest page : List α}
    {limit : ℕ} (h : r.Through key log accepted done rest) (hpage : Page key log limit r.cursor page) :
    ∃ later, rest = page ++ later ∧ (page = [] → rest = []) := by
  have hafter : after key log r.cursor = rest := by
    rw [h.cursor, ← h.split]
    exact after_done (h.split ▸ hunique)
  obtain ⟨later, hlater⟩ := hafter ▸ hpage.ordered
  exact ⟨later, hlater.symm, fun hnone => hafter ▸ hpage.exhausted hnone⟩

theorem Reader.Through.inOrder {r : Reader κ} {done rest : List α} (h : r.Through key log accepted done rest) :
    r.received <+: (log.filter accepted).map key := by
  rw [h.received, ← h.split, List.filter_append, List.map_append]
  exact List.prefix_append _ _

/-! ## Runs -/

section Runs
variable [DecidableEq κ] {limit : ℕ} {hist : List (Transition (Reader κ) (List α))} {r : Reader κ}

theorem through (hunique : (log.map key).Nodup) (h : ReaderRun key log accepted limit hist r) :
    ∃ done rest, r.Through key log accepted done rest := by
  apply h.invariant (I := fun r => ∃ done rest, r.Through key log accepted done rest)
  · rintro _ rfl
    exact ⟨[], log, rfl, rfl, rfl⟩
  · rintro r page _ ⟨done, rest, hthrough⟩ ⟨hpage, rfl⟩
    obtain ⟨later, rfl, _⟩ := hthrough.page hunique hpage
    exact ⟨_, hthrough.read⟩

theorem through_pages (hunique : (log.map key).Nodup) (h : ReaderRun key log accepted limit hist r)
    (hends : ∀ t ∈ hist, EndsAccepted accepted t.label) :
    ∃ done rest, r.Through key log accepted done rest ∧ (rest = [] ∨ hist.length ≤ done.length) := by
  apply h.relates_of (C := fun t => EndsAccepted accepted t.label)
    (R := fun hist r => ∃ done rest, r.Through key log accepted done rest ∧ (rest = [] ∨ hist.length ≤ done.length))
    ?_ ?_ hends
  · rintro _ rfl
    exact ⟨[], log, ⟨rfl, rfl, rfl⟩, .inr (Nat.zero_le _)⟩
  · rintro hist r page _ _ ⟨done, rest, hthrough, hfar⟩ hend ⟨hpage, rfl⟩
    obtain ⟨later, rfl, hnone⟩ := hthrough.page hunique hpage
    obtain ⟨later', hread⟩ := hthrough.read
    rw [kept_eq_self.mpr hend] at hread
    have hlater : later' = later := by
      have hsplit := hread.split.trans hthrough.split.symm
      rw [← List.append_assoc] at hsplit
      exact List.append_cancel_left hsplit
    subst hlater
    refine ⟨done ++ page, later', hread, ?_⟩
    rcases hfar with hrest | hfar
    · exact .inl (List.append_eq_nil_iff.mp hrest).2
    · by_cases hempty : page = []
      · exact .inl (List.append_eq_nil_iff.mp (hnone hempty)).2
      · have hpos := List.length_pos_iff.mpr hempty
        exact .inr (by simp only [List.length_cons, List.length_append]; omega)

theorem delivered_of_ends (hunique : (log.map key).Nodup) (h : ReaderRun key log accepted limit hist r)
    (hends : ∀ t ∈ hist, EndsAccepted accepted t.label) : Delivered key log accepted (hist.map (·.label)) r := by
  obtain ⟨done, rest, hthrough, hfar⟩ := through_pages hunique h hends
  refine ⟨hthrough.inOrder, fun page earlier last hpages hlast => ?_, fun hlength => ?_⟩
  · cases h with
    | start _ => cases hpages
    | @next hist r _ page' _ hstep =>
      obtain ⟨_, rfl⟩ := hstep
      obtain ⟨rfl, _⟩ := List.cons.inj hpages
      have hkept := kept_eq_self.mpr (hends _ (List.mem_cons_self ..))
      have hfilter := @getLast?_kept α accepted page'
      rw [hkept, hlast] at hfilter
      simp [Reader.read, ← hfilter]
  · have hrest : rest = [] := by
      rcases hfar with hrest | hfar
      · exact hrest
      · have hsplit := congrArg List.length hthrough.split
        rw [List.length_append] at hsplit
        rw [List.length_map] at hlength
        exact List.length_eq_zero_iff.mp (by omega)
    rw [hthrough.received, ← hthrough.split, hrest, List.append_nil]

/-- A page whose last record the reader's cursor names ends accepted: the cursor names records it is through with,
and the records have different keys. -/
theorem ends_of_delivered (hunique : (log.map key).Nodup) {t : Transition (Reader κ) (List α)}
    (h : ReaderRun key log accepted limit (t :: hist) r)
    (hdelivered : Delivered key log accepted ((t :: hist).map (·.label)) r) : EndsAccepted accepted t.label := by
  cases h with
  | @next _ r _ page hrun hstep =>
    obtain ⟨hpage, rfl⟩ := hstep
    obtain ⟨done, rest, hthrough⟩ := through hunique hrun
    obtain ⟨later, rfl, _⟩ := hthrough.page hunique hpage
    obtain ⟨later', hread⟩ := hthrough.read
    obtain ⟨dropped, hsplit⟩ := @kept_isPrefix α accepted page
    rw [← kept_eq_self]
    rcases List.eq_nil_or_concat' dropped with rfl | ⟨before, last, rfl⟩
    · rwa [List.append_nil] at hsplit
    -- the last record was dropped, so that the cursor names another one
    exfalso
    have hlast : page.getLast? = some last := by rw [← hsplit, ← List.append_assoc, List.getLast?_concat]
    have hcursor := hdelivered.atLast page _ last rfl hlast
    rw [hread.cursor] at hcursor
    obtain ⟨x, hx, hkey⟩ := Option.map_eq_some_iff.mp hcursor
    have hdone : x ∈ done ++ kept accepted page := List.mem_of_getLast? hx
    have hlog : log = (done ++ kept accepted page) ++ (before ++ [last] ++ later) := by
      rw [← hthrough.split]
      conv_lhs => rw [← hsplit]
      simp
    rw [hlog, List.map_append] at hunique
    exact List.disjoint_of_nodup_append hunique (List.mem_map_of_mem hdone) (by simp [hkey])

end Runs

end PagedLog
