import CiaServer.Interleave.Program

/-!
# Sequential routines

A `Routine` is one call of a function by itself: it reads and writes a state
and returns or throws. What it has written stays written when it throws, so
that a handler may go on from there. `exec` runs it from a state; the rules
below are one equation for each way to build a routine, and `exec_forM` is the
invariant rule of a loop whose body returns.
-/

namespace Interleave

/-- A call that works on a `σ`, throws an `ε` or returns an `α`. -/
abbrev Routine (σ ε α : Type) := ExceptT ε (StateM σ) α

namespace Routine

variable {σ ε α β : Type}

/-- What the call returns or throws, and the state it leaves. -/
def exec (m : Routine σ ε α) (s : σ) : Except ε α × σ := Id.run (StateT.run (ExceptT.run m) s)

/-- A computation that neither reads nor writes the state. -/
def ofExcept (r : Except ε α) : Routine σ ε α := ExceptT.mk (pure r)

@[simp] theorem exec_ofExcept (r : Except ε α) (s : σ) :
    (ofExcept r : Routine σ ε α).exec s = (r, s) := rfl

@[simp] theorem exec_pure (a : α) (s : σ) : (pure a : Routine σ ε α).exec s = (.ok a, s) := rfl

@[simp] theorem exec_throw (e : ε) (s : σ) :
    (throw e : Routine σ ε α).exec s = (.error e, s) := rfl

@[simp] theorem exec_modify (f : σ → σ) (s : σ) :
    (modify f : Routine σ ε PUnit).exec s = (.ok ⟨⟩, f s) := rfl

@[simp] theorem exec_get (s : σ) : (get : Routine σ ε σ).exec s = (.ok s, s) := rfl

theorem exec_bind (m : Routine σ ε α) (f : α → Routine σ ε β) (s : σ) :
    (m >>= f).exec s = match m.exec s with
      | (.ok a, s') => (f a).exec s'
      | (.error e, s') => (.error e, s') := by
  show Id.run (StateT.run (ExceptT.run m >>= ExceptT.bindCont f) s) = _
  rw [StateT.run_bind]
  show (fun p : Except ε α × σ => Id.run (StateT.run (ExceptT.bindCont f p.1) p.2)) (m.exec s) = _
  rcases m.exec s with ⟨r, s'⟩
  cases r <;> rfl

/-- What comes after a call that returned. -/
theorem exec_bind_ok {m : Routine σ ε α} {f : α → Routine σ ε β} {s s' : σ} {a : α}
    (h : m.exec s = (.ok a, s')) : (m >>= f).exec s = (f a).exec s' := by
  rw [exec_bind, h]

/-- Nothing comes after a call that threw. -/
theorem exec_bind_error {m : Routine σ ε α} {f : α → Routine σ ε β} {s s' : σ} {e : ε}
    (h : m.exec s = (.error e, s')) : (m >>= f).exec s = (.error e, s') := by
  rw [exec_bind, h]

/-- A call whose value is not used. -/
theorem exec_discard_ok {m : Routine σ ε α} {s s' : σ} {a : α} (h : m.exec s = (.ok a, s')) :
    (discard m).exec s = (.ok ⟨⟩, s') := by
  show (m >>= fun _ => pure PUnit.unit).exec s = _
  rw [exec_bind_ok h]
  rfl

theorem exec_discard_error {m : Routine σ ε α} {s s' : σ} {e : ε} (h : m.exec s = (.error e, s')) :
    (discard m).exec s = (.error e, s') := by
  show (m >>= fun _ => pure PUnit.unit).exec s = _
  rw [exec_bind_error h]

theorem exec_tryCatch (m : Routine σ ε α) (f : ε → Routine σ ε α) (s : σ) :
    (tryCatch m f).exec s = match m.exec s with
      | (.ok a, s') => (.ok a, s')
      | (.error e, s') => (f e).exec s' := by
  show Id.run (StateT.run (ExceptT.run m >>= fun r => match r with
    | .ok a => pure (.ok a)
    | .error e => ExceptT.run (f e)) s) = _
  rw [StateT.run_bind]
  show (fun p : Except ε α × σ => Id.run (StateT.run (match p.1 with
    | .ok a => pure (.ok a)
    | .error e => ExceptT.run (f e)) p.2)) (m.exec s) = _
  rcases m.exec s with ⟨r, s'⟩
  cases r <;> rfl

/-- The handler is not asked. -/
theorem exec_tryCatch_ok {m : Routine σ ε α} {f : ε → Routine σ ε α} {s s' : σ} {a : α}
    (h : m.exec s = (.ok a, s')) : (tryCatch m f).exec s = (.ok a, s') := by
  rw [exec_tryCatch, h]

/-- The handler goes on in the state the call left. -/
theorem exec_tryCatch_error {m : Routine σ ε α} {f : ε → Routine σ ε α} {s s' : σ} {e : ε}
    (h : m.exec s = (.error e, s')) : (tryCatch m f).exec s = (f e).exec s' := by
  rw [exec_tryCatch, h]

/-- The invariant rule of a loop: `I` speaks of the rounds made so far. -/
theorem exec_forM {body : β → Routine σ ε PUnit} {I : List β → σ → Prop} {bs : List β}
    (hbody : ∀ done b rest s, bs = done ++ b :: rest → I done s →
      ∃ s', (body b).exec s = (.ok ⟨⟩, s') ∧ I (done ++ [b]) s') {s : σ} (h₀ : I [] s) :
    ∃ s', (bs.forM body).exec s = (.ok ⟨⟩, s') ∧ I bs s' := by
  -- the induction is on the rounds to come
  suffices h : ∀ (todo done : List β) (s : σ), bs = done ++ todo → I done s →
      ∃ s', (todo.forM body).exec s = (.ok ⟨⟩, s') ∧ I bs s' from h bs [] s rfl h₀
  intro todo
  induction todo with
  | nil =>
    intro done s hbs hI
    rw [List.append_nil] at hbs
    exact ⟨s, rfl, hbs ▸ hI⟩
  | cons b todo ih =>
    intro done s hbs hI
    obtain ⟨s₁, h₁, hI₁⟩ := hbody done b todo s hbs hI
    obtain ⟨s₂, h₂, hI₂⟩ := ih (done ++ [b]) s₁ (by rw [hbs, List.append_assoc]; rfl) hI₁
    refine ⟨s₂, ?_, hI₂⟩
    show (body b >>= fun _ => todo.forM body).exec s = _
    rw [exec_bind_ok h₁]
    exact h₂

end Routine

end Interleave
