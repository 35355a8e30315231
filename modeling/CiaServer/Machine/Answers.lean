import Mathlib.Data.List.Basic
import Mathlib.Data.List.Forall2

/-!
# Objects that answer calls

A program that owns objects calls them one after the other. `call s a` is what
the call `a` leaves of the state `s` and what it answers, if it is a call that
can be made; `answers call s as` are the answers to the calls `as`, up to the
first that cannot be made.

Two implementations that a relation between their states connects, kept by
every call that both answer alike, cannot be told apart (`answers_eq`).
-/

namespace Machine

variable {σ τ α ρ : Type}

/-- The answers to the calls `as`; `none` is a call that cannot be made, and the end. -/
def answers (call : σ → α → Option (σ × ρ)) : σ → List α → List (Option ρ)
  | _, [] => []
  | s, a :: as =>
    match call s a with
    | none => [none]
    | some (s', r) => some r :: answers call s' as

/-- Two results of a call are alike: both failed, or the same answer and related states. -/
def Alike (R : σ → τ → Prop) : Option (σ × ρ) → Option (τ × ρ) → Prop
  | none, none => True
  | some (s, r), some (t, r') => r = r' ∧ R s t
  | _, _ => False

variable {call : σ → α → Option (σ × ρ)} {call' : τ → α → Option (τ × ρ)} {R : σ → τ → Prop}

/-- The simulation rule. -/
theorem answers_eq (hcall : ∀ s t a, R s t → Alike R (call s a) (call' t a)) :
    ∀ {as : List α} {s : σ} {t : τ}, R s t → answers call s as = answers call' t as
  | [], _, _, _ => rfl
  | a :: as, s, t, h => by
    have halike := hcall s t a h
    unfold answers
    cases hs : call s a with
    | none =>
      rw [hs] at halike
      cases ht : call' t a with
      | none => rfl
      | some q => rw [ht] at halike; exact halike.elim
    | some p =>
      rw [hs] at halike
      cases ht : call' t a with
      | none => rw [ht] at halike; exact halike.elim
      | some q =>
        rw [ht] at halike
        obtain ⟨hr, hR⟩ := halike
        dsimp only
        rw [hr, answers_eq hcall hR]

/-! ## A store of objects

The states are lists of objects, `Forall₂ R` relates them one by one. -/

section

variable {μ ν : Type} {Q : μ → ν → Prop} {as : List μ} {bs : List ν}

/-- What is done with an object, if there is one. -/
def onObject (as : List μ) (i : Nat) (f : μ → Option (List μ × ρ)) : Option (List μ × ρ) :=
  as[i]?.bind f

/-- Related stores have related objects in the same places. -/
theorem forall₂_getElem? (h : List.Forall₂ Q as bs) (i : Nat) :
    (as[i]? = none ∧ bs[i]? = none) ∨ ∃ a b, as[i]? = some a ∧ bs[i]? = some b ∧ Q a b := by
  induction h generalizing i with
  | nil => exact Or.inl ⟨rfl, rfl⟩
  | cons hab _ ih =>
    cases i with
    | zero => exact Or.inr ⟨_, _, rfl, rfl, hab⟩
    | succ i => exact ih i

theorem forall₂_set (h : List.Forall₂ Q as bs) (i : Nat) {a : μ} {b : ν} (hab : Q a b) :
    List.Forall₂ Q (as.set i a) (bs.set i b) := by
  induction h generalizing i with
  | nil => exact List.Forall₂.nil
  | cons hcd hrest ih =>
    cases i with
    | zero => exact List.Forall₂.cons hab hrest
    | succ i => exact List.Forall₂.cons hcd (ih i)

theorem alike_onObject (h : List.Forall₂ Q as bs) (i : Nat)
    {f : μ → Option (List μ × ρ)} {g : ν → Option (List ν × ρ)}
    (hfg : ∀ a b, Q a b → Alike (List.Forall₂ Q) (f a) (g b)) :
    Alike (List.Forall₂ Q) (onObject as i f) (onObject bs i g) := by
  rcases forall₂_getElem? h i with ⟨ha, hb⟩ | ⟨a, b, ha, hb, hab⟩
  · rw [onObject, onObject, ha, hb]
    exact trivial
  · rw [onObject, onObject, ha, hb]
    exact hfg a b hab

end

end Machine
