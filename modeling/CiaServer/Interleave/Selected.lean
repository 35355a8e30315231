import CiaServer.Interleave.Tokens

/-!
# Counting through another list

Some of the entries of a list, taken by a function or by their indices: what
they hold together, and that different indices give different entries.
-/

namespace Interleave

variable {α β κ : Type} [DecidableEq κ]

theorem tokens_map (f : α → Option κ) (k : κ) (g : β → α) (l : List β) :
    tokens f k (l.map g) = tokens (fun b => f (g b)) k l := by
  rw [tokens, List.map_map]
  rfl

/-- What is left out holds nothing. -/
theorem tokens_filterMap (f : α → Option κ) (k : κ) (g : β → Option α) (l : List β) :
    tokens f k (l.filterMap g) = tokens (fun b => (g b).bind f) k l := by
  induction l with
  | nil => rfl
  | cons b l ih =>
    cases hb : g b with
    | none =>
      rw [List.filterMap_cons_none hb, tokens_cons, tok_of_none (by rw [hb]; rfl), ih, Nat.zero_add]
    | some a =>
      rw [List.filterMap_cons_some hb, tokens_cons, tokens_cons, ih]
      simp only [tok, hb, Option.bind_some]

theorem count_filterMap_eq_tokens [BEq κ] [LawfulBEq κ] (f : α → Option κ) (k : κ) (l : List α) :
    (l.filterMap f).count k = tokens f k l := by
  rw [← tokens_some_eq_count, tokens_filterMap]
  simp only [Option.bind_fun_some]

/-- Entries read by their index are the entries. -/
theorem filterMap_range_getElem? (f : α → Option β) (l : List α) :
    (List.range l.length).filterMap (fun i => l[i]?.bind f) = l.filterMap f := by
  induction l using List.reverseRecOn with
  | nil => rfl
  | append_singleton l a ih =>
    have hlast : (l ++ [a])[l.length]? = some a := by
      rw [List.getElem?_append_right (Nat.le_refl _), Nat.sub_self]
      rfl
    have hold : (List.range l.length).filterMap (fun i => (l ++ [a])[i]?.bind f) =
        (List.range l.length).filterMap fun i => l[i]?.bind f := by
      refine List.filterMap_congr fun i hi => ?_
      rw [List.getElem?_append_left (List.mem_range.mp hi)]
    rw [List.length_append, List.length_singleton, List.range_succ, List.filterMap_append,
      List.filterMap_append, hold, ih]
    congr 1
    simp only [List.filterMap_cons, hlast, Option.bind_some]
    rfl

/-- Different entries of a list, read one by one, are some of its entries. -/
theorem subperm_of_nodup_index (f : α → Option β) {l : List α} {is : List Nat} (h : is.Nodup) :
    (is.filterMap fun i => l[i]?.bind f).Subperm (l.filterMap f) := by
  have hin : (is.filterMap fun i => l[i]?.bind f) =
      (is.filter fun i => decide (i < l.length)).filterMap fun i => l[i]?.bind f := by
    rw [List.filterMap_filter]
    refine List.filterMap_congr fun i _ => ?_
    by_cases hi : i < l.length
    · simp only [hi, decide_true, if_true]
    · rw [List.getElem?_eq_none (by omega)]
      simp only [hi, decide_false, Option.bind_none]
      rfl
  have hsub : (is.filter fun i => decide (i < l.length)).Subperm (List.range l.length) := by
    refine List.subperm_of_subset (h.filter _) ?_
    intro i hi
    exact List.mem_range.mpr (of_decide_eq_true (List.mem_filter.mp hi).2)
  obtain ⟨js, hperm, hjs⟩ := hsub
  rw [hin, ← filterMap_range_getElem? f l]
  exact ⟨_, hperm.filterMap _, hjs.filterMap _⟩

end Interleave
