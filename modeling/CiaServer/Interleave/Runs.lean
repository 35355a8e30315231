import Mathlib.Data.List.Count

/-!
# Runs of a step function

A system whose events are taken one at a time is a function
`step : σ → α → Option σ`: the state after an event, if the event is possible.
`runs step s es` is the state after the events `es`, each possible in its turn.

Two rules: what every event keeps holds after every run (`runs_rule`), and if
every event of one kind leaves less to do and no other event leaves more, a run
has no more events of that kind than there was to do (`countP_add_le_of_runs`).
-/

namespace Interleave

variable {σ α : Type} {step : σ → α → Option σ}

/-- The state after the events `es`. -/
def runs (step : σ → α → Option σ) (s : σ) (es : List α) : Option σ := es.foldlM step s

@[simp] theorem runs_nil (s : σ) : runs step s [] = some s := rfl

theorem runs_cons {s s' : σ} {e : α} {es : List α} :
    runs step s (e :: es) = some s' ↔ ∃ t, step s e = some t ∧ runs step t es = some s' := by
  rw [runs, List.foldlM_cons]
  exact Option.bind_eq_some_iff

theorem runs_append (s : σ) (es fs : List α) :
    runs step s (es ++ fs) = (runs step s es).bind fun t => runs step t fs :=
  List.foldlM_append

/-- The invariant rule: `ok` is what is known of the events of the run. -/
theorem runs_rule (I : σ → Prop) (ok : α → Prop)
    (hstep : ∀ s e s', I s → ok e → step s e = some s' → I s') :
    ∀ {es : List α} {s s' : σ}, I s → (∀ e ∈ es, ok e) → runs step s es = some s' → I s' := by
  intro es
  induction es with
  | nil =>
    intro s s' hi _ h
    cases h
    exact hi
  | cons e es ih =>
    intro s s' hi hok h
    obtain ⟨t, ht, hes⟩ := runs_cons.mp h
    exact ih (hstep s e t hi (hok e (List.mem_cons_self ..)) ht)
      (fun e' he' => hok e' (List.mem_cons_of_mem _ he')) hes

/-- The measure rule: an event of the kind `own` takes at least one off `μ`, and no
other adds to it. -/
theorem countP_add_le_of_runs (I : σ → Prop) (ok : α → Prop) (own : α → Bool) (μ : σ → Nat)
    (hstep : ∀ s e s', I s → ok e → step s e = some s' → I s')
    (hμ : ∀ s e s', I s → ok e → step s e = some s' → (if own e then 1 else 0) + μ s' ≤ μ s) :
    ∀ {es : List α} {s s' : σ}, I s → (∀ e ∈ es, ok e) → runs step s es = some s' →
      es.countP own + μ s' ≤ μ s := by
  intro es
  induction es with
  | nil =>
    intro s s' _ _ h
    cases h
    simp
  | cons e es ih =>
    intro s s' hi hok h
    obtain ⟨t, ht, hes⟩ := runs_cons.mp h
    have he := hok e (List.mem_cons_self ..)
    have hle := ih (hstep s e t hi he ht) (fun e' he' => hok e' (List.mem_cons_of_mem _ he')) hes
    have hone := hμ s e t hi he ht
    rw [List.countP_cons]
    omega

end Interleave
