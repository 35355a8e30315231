import Mathlib.Algebra.GroupWithZero.Nat
import Mathlib.Data.List.Basic
import Mathlib.Data.List.Count
import Mathlib.Data.List.Nodup
import Mathlib.Data.List.Range

/-!
# Counting the holders of a resource

A resource that is handed from place to place (a lock, a free slot, a job) is
in exactly one place if the places that hold it, *counted*, come to one. A
place here is an element of a list — a thread of a pool, an entry of a queue,
a slot of a table, an event of a history — and `f : α → Option κ` says which
resource that element holds. `tokens f k l` counts the elements of `l` that
hold `k`.

The lemmas below are the arithmetic of one hand-over: replacing one element
(`tokens_set`), appending (`tokens_append`), taking the head (`tokens_cons`),
removing one entry (`tokens_erase`). All of them are stated additively, so
that a step which moves a token from one place to another is closed by
`omega` on the sum of the places. A count is a sum of weights, and the lemmas
on weights (`sum_map_set`, `sum_map_eraseIdx`) serve measures as well.
-/

namespace Interleave

variable {α κ : Type} [DecidableEq κ]

/-- `1` if `a` holds `k`, else `0`. -/
def tok (f : α → Option κ) (k : κ) (a : α) : Nat := if f a = some k then 1 else 0

/-- How many elements of `l` hold `k`. -/
def tokens (f : α → Option κ) (k : κ) (l : List α) : Nat := (l.map (tok f k)).sum

@[simp] theorem tokens_nil (f : α → Option κ) (k : κ) : tokens f k [] = 0 := rfl

@[simp] theorem tokens_cons (f : α → Option κ) (k : κ) (a : α) (l : List α) :
    tokens f k (a :: l) = tok f k a + tokens f k l := by
  simp [tokens]

@[simp] theorem tokens_append (f : α → Option κ) (k : κ) (l₁ l₂ : List α) :
    tokens f k (l₁ ++ l₂) = tokens f k l₁ + tokens f k l₂ := by
  simp [tokens]

theorem tok_of_eq {f : α → Option κ} {k : κ} {a : α} (h : f a = some k) : tok f k a = 1 :=
  if_pos h

theorem tok_of_ne {f : α → Option κ} {k : κ} {a : α} (h : f a ≠ some k) : tok f k a = 0 :=
  if_neg h

theorem tok_of_none {f : α → Option κ} {k : κ} {a : α} (h : f a = none) : tok f k a = 0 :=
  tok_of_ne (by rw [h]; exact nofun)

/-! ## Weights

What the elements of a list weigh together, for any weight of one. -/

/-- One element replaced. -/
theorem sum_map_set (f : α → Nat) : ∀ {l : List α} {i : Nat} {a : α}, l[i]? = some a → ∀ b : α,
    ((l.set i b).map f).sum + f a = (l.map f).sum + f b
  | [], _, _, h, _ => by simp at h
  | x :: xs, 0, a, h, b => by
    simp only [List.getElem?_cons_zero, Option.some.injEq] at h
    subst h
    simp only [List.set_cons_zero, List.map_cons, List.sum_cons]
    omega
  | x :: xs, i + 1, a, h, b => by
    rw [List.getElem?_cons_succ] at h
    have ih := sum_map_set f h b
    simp only [List.set_cons_succ, List.map_cons, List.sum_cons]
    omega

/-- One element removed. -/
theorem sum_map_eraseIdx (f : α → Nat) : ∀ {l : List α} {i : Nat} {a : α}, l[i]? = some a →
    ((l.eraseIdx i).map f).sum + f a = (l.map f).sum
  | [], _, _, h => by simp at h
  | x :: xs, 0, a, h => by
    simp only [List.getElem?_cons_zero, Option.some.injEq] at h
    subst h
    simp only [List.eraseIdx_cons_zero, List.map_cons, List.sum_cons]
    omega
  | x :: xs, i + 1, a, h => by
    rw [List.getElem?_cons_succ] at h
    have ih := sum_map_eraseIdx f h
    simp only [List.eraseIdx_cons_succ, List.map_cons, List.sum_cons]
    omega

/-- One element added. -/
theorem sum_map_append_singleton (f : α → Nat) (l : List α) (a : α) :
    ((l ++ [a]).map f).sum = (l.map f).sum + f a := by
  rw [List.map_append, List.sum_append]
  rfl

/-- A lighter element takes the place of another. -/
theorem sum_map_set_lt (f : α → Nat) {l : List α} {i : Nat} {a b : α} (h : l[i]? = some a)
    (hb : f b < f a) : ((l.set i b).map f).sum < (l.map f).sum := by
  have hset := sum_map_set f h b
  omega

/-- An element that weighs something is removed. -/
theorem sum_map_eraseIdx_lt (f : α → Nat) {l : List α} {i : Nat} {a : α} (h : l[i]? = some a)
    (ha : 0 < f a) : ((l.eraseIdx i).map f).sum < (l.map f).sum := by
  have herase := sum_map_eraseIdx f h
  omega

/-! ## One hand-over -/

/-- One element replaced: the count changes by the difference of the two. -/
theorem tokens_set (f : α → Option κ) (k : κ) {l : List α} {i : Nat} {a : α} (h : l[i]? = some a)
    (b : α) : tokens f k (l.set i b) + tok f k a = tokens f k l + tok f k b :=
  sum_map_set (tok f k) h b

/-- One entry removed: exactly its own token leaves. -/
theorem tokens_erase [DecidableEq α] (f : α → Option κ) (k : κ) :
    ∀ {l : List α} {a : α}, a ∈ l → tokens f k (l.erase a) + tok f k a = tokens f k l
  | [], _, h => by cases h
  | x :: xs, a, h => by
    by_cases hx : x = a
    · subst hx
      rw [List.erase_cons_head, tokens_cons]
      omega
    · have ha : a ∈ xs := by
        rcases List.mem_cons.mp h with he | ht
        · exact absurd he.symm hx
        · exact ht
      rw [List.erase_cons_tail (by simpa using hx), tokens_cons, tokens_cons,
        ← tokens_erase f k ha]
      omega

/-- The same for an entry removed by its index. -/
theorem tokens_eraseIdx (f : α → Option κ) (k : κ) {l : List α} {i : Nat} {a : α}
    (h : l[i]? = some a) : tokens f k (l.eraseIdx i) + tok f k a = tokens f k l :=
  sum_map_eraseIdx (tok f k) h

/-- A holder in the list is counted. -/
theorem tok_le_tokens (f : α → Option κ) (k : κ) :
    ∀ {l : List α} {a : α}, a ∈ l → tok f k a ≤ tokens f k l
  | [], _, h => by cases h
  | x :: xs, a, h => by
    rw [tokens_cons]
    rcases List.mem_cons.mp h with he | ht
    · subst he
      omega
    · have := tok_le_tokens f k ht
      omega

theorem one_le_tokens {f : α → Option κ} {k : κ} {l : List α} {a : α} (ha : a ∈ l)
    (h : f a = some k) : 1 ≤ tokens f k l := by
  have := tok_le_tokens f k ha
  rwa [tok_of_eq h] at this

/-- Everything holds the one resource there is. -/
theorem tokens_const (k : κ) (l : List α) : tokens (fun _ => some k) k l = l.length := by
  induction l with
  | nil => rfl
  | cons x xs ih =>
    have hx : tok (fun _ => some k) k x = 1 := tok_of_eq rfl
    rw [tokens_cons, ih, hx, List.length_cons]
    omega

/-- Nothing is counted exactly when nobody holds. -/
theorem tokens_eq_zero_iff {f : α → Option κ} {k : κ} {l : List α} :
    tokens f k l = 0 ↔ ∀ a ∈ l, f a ≠ some k := by
  constructor
  · intro h a ha he
    have := one_le_tokens ha he
    omega
  · intro h
    induction l with
    | nil => rfl
    | cons x xs ih =>
      rw [tokens_cons, tok_of_ne (h x (List.mem_cons_self ..)),
        ih fun a ha => h a (List.mem_cons_of_mem _ ha)]

/-- A positive count has a holder. -/
theorem exists_of_tokens_pos {f : α → Option κ} {k : κ} {l : List α} (h : 0 < tokens f k l) :
    ∃ a ∈ l, f a = some k := by
  rcases Classical.em (∃ a ∈ l, f a = some k) with he | he
  · exact he
  · have : tokens f k l = 0 := tokens_eq_zero_iff.mpr fun a ha hk => he ⟨a, ha, hk⟩
    omega

/-- Two different places are counted twice (the ordered case). -/
private theorem tok_add_tok_le_of_lt (f : α → Option κ) (k : κ) :
    ∀ {l : List α} {i j : Nat} {a b : α}, i < j → l[i]? = some a → l[j]? = some b →
      tok f k a + tok f k b ≤ tokens f k l
  | [], _, _, _, _, _, hi, _ => by simp at hi
  | _ :: _, _, 0, _, _, hij, _, _ => by omega
  -- the head is counted on its own, the other place is in the tail
  | x :: xs, 0, j + 1, a, b, _, hi, hj => by
    simp only [List.getElem?_cons_zero, Option.some.injEq] at hi
    rw [List.getElem?_cons_succ] at hj
    subst hi
    have := tok_le_tokens f k (List.mem_of_getElem? hj)
    rw [tokens_cons]
    omega
  | x :: xs, i + 1, j + 1, a, b, hij, hi, hj => by
    rw [List.getElem?_cons_succ] at hi hj
    have := tok_add_tok_le_of_lt f k (by omega : i < j) hi hj
    rw [tokens_cons]
    omega

/-- Two different places are counted twice. -/
theorem tok_add_tok_le (f : α → Option κ) (k : κ) {l : List α} {i j : Nat} {a b : α}
    (hij : i ≠ j) (hi : l[i]? = some a) (hj : l[j]? = some b) :
    tok f k a + tok f k b ≤ tokens f k l := by
  rcases Nat.lt_or_gt_of_ne hij with hlt | hgt
  · exact tok_add_tok_le_of_lt f k hlt hi hj
  · have := tok_add_tok_le_of_lt f k hgt hj hi
    omega

/-- With at most one token around, its holder is unique. -/
theorem holder_unique {f : α → Option κ} {k : κ} {l : List α} (h1 : tokens f k l ≤ 1)
    {i j : Nat} {a b : α} (hi : l[i]? = some a) (ha : f a = some k) (hj : l[j]? = some b)
    (hb : f b = some k) : i = j := by
  rcases Decidable.em (i = j) with he | hne
  · exact he
  · have := tok_add_tok_le f k hne hi hj
    rw [tok_of_eq ha, tok_of_eq hb] at this
    omega

/-- The entries of a queue, each its own token. -/
theorem tokens_some_eq_count [DecidableEq α] [BEq α] [LawfulBEq α] (k : α) (l : List α) :
    tokens some k l = l.count k := by
  induction l with
  | nil => rfl
  | cons x xs ih =>
    rw [tokens_cons, ih, List.count_cons]
    by_cases hx : x = k
    · subst hx
      simp [tok, Nat.add_comm]
    · simp [tok, hx]

/-- Of the numbers below `n` each is there once. -/
theorem tokens_range (k n : Nat) : tokens some k (List.range n) = if k < n then 1 else 0 := by
  rw [tokens_some_eq_count]
  by_cases h : k < n
  · rw [if_pos h]
    exact List.count_eq_one_of_mem List.nodup_range (List.mem_range.mpr h)
  · rw [if_neg h]
    exact List.count_eq_zero_of_not_mem fun hm => h (List.mem_range.mp hm)

/-- A queue of numbers below `n` without a repetition has at most `n` entries. -/
theorem length_le_of_tokens {l : List Nat} {n : Nat} (hlt : ∀ c ∈ l, c < n)
    (h1 : ∀ c, tokens some c l ≤ 1) : l.length ≤ n := by
  have hnd : l.Nodup := List.nodup_iff_count_le_one.mpr fun c => by
    rw [← tokens_some_eq_count]
    exact h1 c
  have hsub : l ⊆ List.range n := fun c hc => List.mem_range.mpr (hlt c hc)
  have := (List.subperm_of_subset hnd hsub).length_le
  rwa [List.length_range] at this

end Interleave
