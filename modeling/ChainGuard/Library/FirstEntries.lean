import Mathlib.Data.Finset.Card

/-! Tables that keep their first entry for each key, in the order in which the keys came. -/
namespace FirstEntries
set_option autoImplicit false

variable {α κ : Type} [DecidableEq κ] {key : α → κ} {l : List α} {a b : α} {k : κ}

def firsts (key : α → κ) : List α → List α
  | [] => []
  | a :: rest => a :: (firsts key rest).filter fun b => key b ≠ key a

/-- `for (a of l) if (!table.has(key(a))) table.set(key(a), a)` -/
def collect (key : α → κ) (table : List (κ × α)) (l : List α) : List (κ × α) :=
  l.foldl (fun table a => if key a ∈ table.map Prod.fst then table else table ++ [(key a, a)]) table

theorem collect_eq (table : List (κ × α)) (l : List α) :
    collect key table l =
      table ++ ((firsts key l).filter fun a => key a ∉ table.map Prod.fst).map fun a => (key a, a) := by
  induction l generalizing table with
  | nil => simp [collect, firsts]
  | cons a rest ih =>
    rw [collect, List.foldl_cons, ← collect, ih]
    by_cases hseen : key a ∈ table.map Prod.fst
    · have hsame : ((firsts key rest).filter fun b => key b ≠ key a).filter (fun b => key b ∉ table.map Prod.fst) =
          (firsts key rest).filter fun b => key b ∉ table.map Prod.fst := by
        rw [List.filter_filter]
        refine List.filter_congr fun b _ => ?_
        by_cases hb : key b = key a
        · simp only [hb, hseen, not_true_eq_false, decide_false, Bool.false_and]
        · simp only [hb, ne_eq, not_false_eq_true, decide_true, Bool.and_true]
      rw [if_pos hseen, firsts, List.filter_cons_of_neg (by simpa using hseen), hsame]
    · have hnew : (firsts key rest).filter (fun b => key b ∉ (table ++ [(key a, a)]).map Prod.fst) =
          ((firsts key rest).filter fun b => key b ≠ key a).filter fun b => key b ∉ table.map Prod.fst := by
        rw [List.filter_filter]
        refine List.filter_congr fun b _ => ?_
        simp only [List.map_append, List.map_cons, List.map_nil, List.mem_append, List.mem_singleton, not_or,
          Bool.decide_and, ne_eq]
      rw [if_neg hseen, hnew, firsts, List.filter_cons_of_pos (by simpa using hseen), List.map_cons,
        List.append_assoc, List.singleton_append]

theorem firsts_sublist (key : α → κ) (l : List α) : (firsts key l).Sublist l := by
  induction l with
  | nil => exact List.Sublist.refl _
  | cons a rest ih => exact (List.filter_sublist.trans ih).cons_cons a

theorem mem_of_mem_firsts (h : a ∈ firsts key l) : a ∈ l := (firsts_sublist key l).subset h

theorem keys_nodup (key : α → κ) (l : List α) : ((firsts key l).map key).Nodup := by
  induction l with
  | nil => exact List.nodup_nil
  | cons a rest ih =>
    rw [firsts, List.map_cons, List.nodup_cons]
    constructor
    · intro hmem
      obtain ⟨b, hb, hkey⟩ := List.mem_map.mp hmem
      exact of_decide_eq_true (List.mem_filter.mp hb).2 hkey
    · exact ih.sublist (List.filter_sublist.map key)

/-- No key is lost. -/
theorem mem_keys_firsts : k ∈ (firsts key l).map key ↔ k ∈ l.map key := by
  induction l with
  | nil => rfl
  | cons a rest ih =>
    by_cases hk : k = key a
    · simp [firsts, hk]
    · rw [firsts, List.map_cons, List.map_cons, List.mem_cons, List.mem_cons, ← ih]
      refine or_congr Iff.rfl ?_
      constructor
      · intro hmem
        obtain ⟨b, hb, rfl⟩ := List.mem_map.mp hmem
        exact List.mem_map_of_mem (List.mem_filter.mp hb).1
      · intro hmem
        obtain ⟨b, hb, rfl⟩ := List.mem_map.mp hmem
        exact List.mem_map_of_mem (List.mem_filter.mpr ⟨hb, decide_eq_true hk⟩)

/-- There are as many first entries as keys. -/
theorem length_firsts (key : α → κ) (l : List α) : (firsts key l).length = (l.map key).toFinset.card := by
  have hkeys : (l.map key).toFinset = ((firsts key l).map key).toFinset := by
    ext k
    rw [List.mem_toFinset, List.mem_toFinset, mem_keys_firsts]
  rw [hkeys, List.toFinset_card_of_nodup (keys_nodup key l), List.length_map]

end FirstEntries
