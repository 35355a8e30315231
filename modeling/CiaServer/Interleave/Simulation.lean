import Mathlib.Data.List.Basic
import CiaServer.Interleave.Program

/-!
# One program inside another

A program may run the threads of another among its own: what it reaches is then
also reached by the other one, with some of the threads left out.
`Reach.simulation` is the rule: a relation between the configurations of the two
that every step of the first keeps, the second going along by any number of
steps.

The lemmas on `filterMap` say where a thread is once others are left out.
-/

namespace Interleave

open Relation (ReflTransGen)

namespace Program

variable {σ ℓ α ρ τ κ β π : Type} {P : Program σ ℓ α ρ} {Q : Program τ κ β π}
  {okP : Conf σ ℓ → Move α ρ → Prop} {okQ : Conf τ κ → Move β π → Prop}
  {s₀ : Conf σ ℓ} {t₀ : Conf τ κ}

/-- The simulation rule. -/
theorem Reach.simulation {R : Conf σ ℓ → Conf τ κ → Prop} (h₀ : R s₀ t₀)
    (hstep : ∀ s t m s', Q.Reach okQ t₀ t → R s t → okP s m → P.step s m = some s' →
      ∃ t', Q.Reach okQ t t' ∧ R s' t') {s : Conf σ ℓ} (h : P.Reach okP s₀ s) :
    ∃ t, Q.Reach okQ t₀ t ∧ R s t := by
  induction h with
  | refl => exact ⟨t₀, ReflTransGen.refl, h₀⟩
  | tail _ hbc ih =>
    obtain ⟨t, hreach, hR⟩ := ih
    obtain ⟨m, hm, hst⟩ := hbc
    obtain ⟨t', hstep', hR'⟩ := hstep _ t m _ hreach hR hm hst
    exact ⟨t', ReflTransGen.trans hreach hstep', hR'⟩

/-- A move of the environment is a run. -/
theorem reach_env {sh sh' : τ} {ts new : List κ} {a : β}
    (h : Q.env sh ts.length a = some (sh', new)) :
    Q.Reach (fun _ _ => True) ⟨sh, ts⟩ ⟨sh', ts ++ new⟩ := by
  refine ReflTransGen.single ⟨.env a, trivial, ?_⟩
  rw [step, h]
  rfl

/-- The step of a thread is a run. -/
theorem reach_exec {sh sh' : τ} {ts : List κ} {i : Nat} {k k' : κ} {r : π}
    (hk : ts[i]? = some k) (h : Q.exec sh i k r = some (sh', k')) :
    Q.Reach (fun _ _ => True) ⟨sh, ts⟩ ⟨sh', ts.set i k'⟩ := by
  refine ReflTransGen.single ⟨.run i r, trivial, ?_⟩
  simp only [step, hk, h]
  rfl

end Program

/-! ## Some of the threads -/

variable {α β : Type} {f : α → Option β}

/-- A thread that is left out, or stays as it is, is replaced. -/
theorem filterMap_set_of_eq : ∀ {as : List α} {i : Nat} {a a' : α}, as[i]? = some a →
    f a' = f a → (as.set i a').filterMap f = as.filterMap f
  | [], _, _, _, h, _ => by simp at h
  | x :: as, 0, a, a', h, hf => by
    simp only [List.getElem?_cons_zero, Option.some.injEq] at h
    subst h
    rw [List.set_cons_zero, List.filterMap_cons, List.filterMap_cons, hf]
  | x :: as, i + 1, a, a', h, hf => by
    rw [List.getElem?_cons_succ] at h
    rw [List.set_cons_succ, List.filterMap_cons, List.filterMap_cons, filterMap_set_of_eq h hf]

/-- A thread that is not left out has a place among the others. -/
theorem filterMap_set_of_some : ∀ {as : List α} {i : Nat} {a a' : α} {b b' : β},
    as[i]? = some a → f a = some b → f a' = some b' →
    ∃ j, (as.filterMap f)[j]? = some b ∧ (as.set i a').filterMap f = (as.filterMap f).set j b'
  | [], _, _, _, _, _, h, _, _ => by simp at h
  | x :: as, 0, a, a', b, b', h, hf, hf' => by
    simp only [List.getElem?_cons_zero, Option.some.injEq] at h
    subst h
    refine ⟨0, ?_, ?_⟩
    · rw [List.filterMap_cons_some hf, List.getElem?_cons_zero]
    · rw [List.set_cons_zero, List.filterMap_cons_some hf, List.filterMap_cons_some hf',
        List.set_cons_zero]
  | x :: as, i + 1, a, a', b, b', h, hf, hf' => by
    rw [List.getElem?_cons_succ] at h
    obtain ⟨j, hj, hset⟩ := filterMap_set_of_some h hf hf'
    cases hx : f x with
    | none =>
      refine ⟨j, ?_, ?_⟩
      · rw [List.filterMap_cons_none hx]
        exact hj
      · rw [List.set_cons_succ, List.filterMap_cons_none hx, List.filterMap_cons_none hx]
        exact hset
    | some y =>
      refine ⟨j + 1, ?_, ?_⟩
      · rw [List.filterMap_cons_some hx, List.getElem?_cons_succ]
        exact hj
      · rw [List.set_cons_succ, List.filterMap_cons_some hx, List.filterMap_cons_some hx,
          List.set_cons_succ, hset]

/-- Leaving out more leaves less. -/
theorem filterMap_sublist {g : α → Option β} : ∀ {as : List α},
    (∀ a ∈ as, ∀ b, f a = some b → g a = some b) → (as.filterMap f).Sublist (as.filterMap g)
  | [], _ => List.Sublist.refl _
  | a :: as, h => by
    have ih := filterMap_sublist fun b hb => h b (List.mem_cons_of_mem _ hb)
    cases hf : f a with
    | some b =>
      rw [List.filterMap_cons_some hf, List.filterMap_cons_some (h a (List.mem_cons_self ..) b hf)]
      exact ih.cons_cons b
    | none =>
      rw [List.filterMap_cons_none hf, List.filterMap_cons]
      split
      · exact ih
      · exact ih.cons _

end Interleave
