import Mathlib.Logic.Relation
import CiaServer.Interleave.Runs
import CiaServer.Interleave.Tokens

/-!
# Threads interleaving over one shared state

A `Program` is a thread function `exec` (the next step of one thread: shared
state, the thread's own index, where it stands, and a result `ρ` the step may
need from outside) and an environment `env` that may change the shared state
and start threads. A configuration is the shared state and the pool of
threads; a `Move` runs one thread for one step or lets the environment act.
Threads are never removed, so a thread's index is its identity for the whole
run.

`Reach ok s₀ s` says that `s` is reached from `s₀` by moves that all satisfy
`ok` — the assumption under which a group of results holds; `fun _ _ => True`
is "every run". `Reach.rule` is the one induction every invariant uses: it
asks for the environment's moves and for the thread steps, with all that was
proved before about reached configurations in hand.

`Solo` is what one thread does while the others stand still, and `watch` adds a
note that the steps of a program write and never read.
-/

namespace Interleave

open Relation (ReflTransGen)

/-- The step function of every thread, and what the environment may do. -/
structure Program (σ ℓ α ρ : Type) where
  /-- Shared state, index the first started thread will get, action. -/
  env : σ → Nat → α → Option (σ × List ℓ)
  /-- Shared state, own index, where the thread stands, outside result. -/
  exec : σ → Nat → ℓ → ρ → Option (σ × ℓ)

/-- The shared state and the pool of threads. -/
structure Conf (σ ℓ : Type) where
  shared : σ
  threads : List ℓ
  deriving DecidableEq, Repr

/-- One move of the whole system. -/
inductive Move (α ρ : Type) where
  | env (a : α)
  | run (i : Nat) (r : ρ)
  deriving DecidableEq, Repr

variable {σ ℓ α ρ : Type}

/-- A thread steps. -/
def Move.isRun : Move α ρ → Bool
  | .run _ _ => true
  | .env _ => false

namespace Program

/-- The configuration after one move, if the move is possible. -/
def step (P : Program σ ℓ α ρ) (s : Conf σ ℓ) : Move α ρ → Option (Conf σ ℓ)
  | .env a => (P.env s.shared s.threads.length a).map fun p => ⟨p.1, s.threads ++ p.2⟩
  | .run i r =>
    match s.threads[i]? with
    | none => none
    | some l => (P.exec s.shared i l r).map fun p => ⟨p.1, s.threads.set i p.2⟩

/-- The configuration after a list of moves, each possible in its turn and
each accepted by `ok`. -/
def run (P : Program σ ℓ α ρ) (ok : Conf σ ℓ → Move α ρ → Bool) :
    Conf σ ℓ → List (Move α ρ) → Option (Conf σ ℓ)
  | s, [] => some s
  | s, m :: ms =>
    if ok s m then
      match P.step s m with
      | none => none
      | some s' => P.run ok s' ms
    else none

/-- Where a list of moves leads; the start, if it is not possible. -/
def after (P : Program σ ℓ α ρ) (ok : Conf σ ℓ → Move α ρ → Bool) (s₀ : Conf σ ℓ)
    (ms : List (Move α ρ)) : Conf σ ℓ :=
  (P.run ok s₀ ms).getD s₀

/-- One step by some move that satisfies `ok`. -/
def Step (P : Program σ ℓ α ρ) (ok : Conf σ ℓ → Move α ρ → Prop) (s s' : Conf σ ℓ) : Prop :=
  ∃ m, ok s m ∧ P.step s m = some s'

/-- Reached from `s₀` by moves that all satisfy `ok`. -/
def Reach (P : Program σ ℓ α ρ) (ok : Conf σ ℓ → Move α ρ → Prop) (s₀ s : Conf σ ℓ) : Prop :=
  ReflTransGen (P.Step ok) s₀ s

/-- What a move can be: an environment action or the step of one thread. -/
theorem step_cases {P : Program σ ℓ α ρ} {s s' : Conf σ ℓ} {m : Move α ρ}
    (h : P.step s m = some s') :
    (∃ a sh new, m = .env a ∧ P.env s.shared s.threads.length a = some (sh, new) ∧
      s' = ⟨sh, s.threads ++ new⟩) ∨
    (∃ i r l sh l', m = .run i r ∧ s.threads[i]? = some l ∧
      P.exec s.shared i l r = some (sh, l') ∧ s' = ⟨sh, s.threads.set i l'⟩) := by
  cases m with
  | env a =>
    simp only [step, Option.map_eq_some_iff] at h
    obtain ⟨p, hp, hs⟩ := h
    exact Or.inl ⟨a, p.1, p.2, rfl, hp, hs.symm⟩
  | run i r =>
    simp only [step] at h
    split at h
    · cases h
    · next l hl =>
      simp only [Option.map_eq_some_iff] at h
      obtain ⟨p, hp, hs⟩ := h
      exact Or.inr ⟨i, r, l, p.1, p.2, rfl, hl, hp, hs.symm⟩

variable {P : Program σ ℓ α ρ} {ok : Conf σ ℓ → Move α ρ → Prop} {s₀ : Conf σ ℓ}

/-- Restricting the moves further reaches no new configuration. -/
theorem Reach.mono {ok' : Conf σ ℓ → Move α ρ → Prop} (hok : ∀ s m, ok s m → ok' s m)
    {s : Conf σ ℓ} (h : P.Reach ok s₀ s) : P.Reach ok' s₀ s := by
  induction h with
  | refl => exact ReflTransGen.refl
  | tail _ hbc ih =>
    obtain ⟨m, hm, hst⟩ := hbc
    exact ih.tail ⟨m, hok _ _ hm, hst⟩

/-- A program whose steps are all steps of another reaches no more than that. -/
theorem Reach.of_step {β τ : Type} {Q : Program σ ℓ β τ} {ok' : Conf σ ℓ → Move β τ → Prop}
    (hstep : ∀ s s', P.Step ok s s' → Q.Step ok' s s') {s : Conf σ ℓ} (h : P.Reach ok s₀ s) :
    Q.Reach ok' s₀ s := by
  induction h with
  | refl => exact ReflTransGen.refl
  | tail _ hbc ih => exact ih.tail (hstep _ _ hbc)

/-- The invariant rule: what holds at the start and is kept by every
environment move and every thread step holds in every reached configuration. -/
theorem Reach.rule {I : σ → List ℓ → Prop} (h₀ : I s₀.shared s₀.threads)
    (henv : ∀ sh ts a sh' new, P.Reach ok s₀ ⟨sh, ts⟩ → I sh ts → ok ⟨sh, ts⟩ (.env a) →
      P.env sh ts.length a = some (sh', new) → I sh' (ts ++ new))
    (hexec : ∀ sh ts i l r sh' l', P.Reach ok s₀ ⟨sh, ts⟩ → I sh ts → ok ⟨sh, ts⟩ (.run i r) →
      ts[i]? = some l → P.exec sh i l r = some (sh', l') → I sh' (ts.set i l'))
    {s : Conf σ ℓ} (h : P.Reach ok s₀ s) : I s.shared s.threads := by
  induction h with
  | refl => exact h₀
  | tail hab hbc ih =>
    -- `hab` is kept: a step may use what is known of every reached configuration
    obtain ⟨m, hm, hst⟩ := hbc
    rcases step_cases hst with ⟨a, sh, new, rfl, henv', rfl⟩ | ⟨i, r, l, sh, l', rfl, hl, hex, rfl⟩
    · exact henv _ _ a sh new hab ih hm henv'
    · exact hexec _ _ i l r sh l' hab ih hm hl hex

/-- A run by an explicit list of moves reaches its last configuration. -/
theorem reach_of_run {ok : Conf σ ℓ → Move α ρ → Bool} :
    ∀ {ms : List (Move α ρ)} {s₀ s : Conf σ ℓ}, P.run ok s₀ ms = some s →
      P.Reach (fun s m => ok s m = true) s₀ s
  | [], s₀, s, h => by
    simp only [run, Option.some.injEq] at h
    subst h
    exact ReflTransGen.refl
  | m :: ms, s₀, s, h => by
    simp only [run] at h
    split at h
    · next hok =>
      split at h
      · cases h
      · next s' hs' => exact ReflTransGen.head ⟨m, hok, hs'⟩ (reach_of_run h)
    · cases h

theorem reach_after {ok : Conf σ ℓ → Move α ρ → Bool} {s₀ : Conf σ ℓ} {ms : List (Move α ρ)}
    (h : (P.run ok s₀ ms).isSome = true) :
    P.Reach (fun s m => ok s m = true) s₀ (P.after ok s₀ ms) := by
  obtain ⟨s, hs⟩ := Option.isSome_iff_exists.mp h
  rw [after, hs]
  exact reach_of_run hs

/-- A run that nothing restricts. -/
theorem run_true (P : Program σ ℓ α ρ) (s : Conf σ ℓ) (ms : List (Move α ρ)) :
    P.run (fun _ _ => true) s ms = runs P.step s ms := by
  induction ms generalizing s with
  | nil => rfl
  | cons m ms ih =>
    simp only [run, if_true, runs, List.foldlM_cons]
    cases P.step s m with
    | none => rfl
    | some t => exact ih t

/-- Where a possible run leads. -/
theorem run_eq_some_after {ok : Conf σ ℓ → Move α ρ → Bool} {ms : List (Move α ρ)}
    (h : (P.run ok s₀ ms).isSome = true) : P.run ok s₀ ms = some (P.after ok s₀ ms) := by
  obtain ⟨s, hs⟩ := Option.isSome_iff_exists.mp h
  rw [after, hs]
  rfl

/-- A run of moves of one kind is no longer than there is to do, if each of them leaves
less. -/
theorem length_le_of_run {I : Conf σ ℓ → Prop} (own : Move α ρ → Bool) (μ : Conf σ ℓ → Nat)
    (hstep : ∀ s m s', I s → own m = true → P.step s m = some s' → I s' ∧ μ s' < μ s)
    {ms : List (Move α ρ)} {s s' : Conf σ ℓ} (h : I s) (hown : ∀ m ∈ ms, own m = true)
    (hrun : P.run (fun _ _ => true) s ms = some s') : ms.length ≤ μ s := by
  rw [run_true] at hrun
  have hle := countP_add_le_of_runs I (own · = true) (fun _ => true) μ
    (fun s m s' hi hm hst => (hstep s m s' hi hm hst).1)
    (fun s m s' hi hm hst => by
      have hlt := (hstep s m s' hi hm hst).2
      rw [if_pos rfl]
      omega) h hown hrun
  rw [List.countP_true] at hle
  omega

/-- A thread that can step makes a move. -/
theorem step_run {sh sh' : σ} {ts : List ℓ} {i : Nat} {l l' : ℓ} {r : ρ} (hl : ts[i]? = some l)
    (h : P.exec sh i l r = some (sh', l')) :
    P.step ⟨sh, ts⟩ (.run i r) = some ⟨sh', ts.set i l'⟩ := by
  simp only [step, hl, h, Option.map_some]

/-- Every move of the run `ms` satisfies `Q` where it is made. -/
def Throughout (P : Program σ ℓ α ρ) (s₀ : Conf σ ℓ) (ms : List (Move α ρ))
    (Q : Conf σ ℓ → Move α ρ → Prop) : Prop :=
  ∀ pre m post s, ms = pre ++ m :: post → P.run (fun _ _ => true) s₀ pre = some s → Q s m

/-- What is the same at every reached configuration is the same throughout. -/
theorem throughout_congr {Q Q' : Conf σ ℓ → Move α ρ → Prop}
    (h : ∀ s m, P.Reach (fun _ _ => True) s₀ s → (Q s m ↔ Q' s m)) (ms : List (Move α ρ)) :
    P.Throughout s₀ ms Q ↔ P.Throughout s₀ ms Q' := by
  have hreach : ∀ {pre : List (Move α ρ)} {s : Conf σ ℓ},
      P.run (fun _ _ => true) s₀ pre = some s → P.Reach (fun _ _ => True) s₀ s :=
    fun hrun => (reach_of_run hrun).mono fun _ _ _ => trivial
  constructor
  · intro hQ pre m post s hms hrun
    exact (h s m (hreach hrun)).mp (hQ pre m post s hms hrun)
  · intro hQ pre m post s hms hrun
    exact (h s m (hreach hrun)).mpr (hQ pre m post s hms hrun)

end Program

/-! ## One thread by itself -/

namespace Program

/-- A step of thread `i` by itself, in a pool of `n`: `res` answers what the
step needs from outside, and `calm` are the environment's moves that start no
thread. -/
inductive SoloStep (P : Program σ ℓ α ρ) (calm : α → Prop) (res : ℓ → ρ) (n i : Nat) :
    σ × ℓ → σ × ℓ → Prop where
  | exec {sh sh' : σ} {l l' : ℓ} (h : P.exec sh i l (res l) = some (sh', l')) :
      SoloStep P calm res n i (sh, l) (sh', l')
  | env {sh sh' : σ} {l : ℓ} {a : α} (ha : calm a) (h : P.env sh n a = some (sh', [])) :
      SoloStep P calm res n i (sh, l) (sh', l)

/-- Thread `i` comes from one place to another while no other thread steps. -/
def Solo (P : Program σ ℓ α ρ) (calm : α → Prop) (res : ℓ → ρ) (n i : Nat) :
    σ × ℓ → σ × ℓ → Prop :=
  ReflTransGen (SoloStep P calm res n i)

variable {P : Program σ ℓ α ρ} {calm : α → Prop} {res : ℓ → ρ} {n i : Nat}

/-- One step first. -/
theorem Solo.head {sh sh' : σ} {l l' : ℓ} {b : σ × ℓ}
    (h : P.exec sh i l (res l) = some (sh', l')) (hb : Solo P calm res n i (sh', l') b) :
    Solo P calm res n i (sh, l) b :=
  ReflTransGen.head (.exec h) hb

theorem Solo.trans {a b c : σ × ℓ} (hab : Solo P calm res n i a b)
    (hbc : Solo P calm res n i b c) : Solo P calm res n i a c :=
  ReflTransGen.trans hab hbc

/-- What a thread does by itself is a run of the whole system, in which the
other threads stay where they are. -/
theorem Solo.reach {sh : σ} {ts : List ℓ} {l : ℓ} {b : σ × ℓ} (hl : ts[i]? = some l)
    (h : Solo P calm res ts.length i (sh, l) b) :
    P.Reach (fun s m => (∃ a, m = .env a ∧ calm a) ∨
      ∃ l, s.threads[i]? = some l ∧ m = .run i (res l)) ⟨sh, ts⟩ ⟨b.1, ts.set i b.2⟩ := by
  have hi : i < ts.length := (List.getElem?_eq_some_iff.mp hl).1
  induction h with
  | refl =>
    rw [(List.getElem?_eq_some_iff.mp hl).2.symm, List.set_getElem_self]
    exact ReflTransGen.refl
  | tail _ hbc ih =>
    cases hbc with
    | @exec sh₁ sh₂ l₁ l₂ h =>
      have hget : (ts.set i l₁)[i]? = some l₁ := List.getElem?_set_self hi
      refine ih.tail ⟨.run i (res l₁), Or.inr ⟨l₁, hget, rfl⟩, ?_⟩
      simp only [step, hget, h, Option.map_some, List.set_set]
    | @env sh₁ sh₂ l₁ a ha h =>
      refine ih.tail ⟨.env a, Or.inl ⟨a, rfl, ha⟩, ?_⟩
      simp only [step, List.length_set, h, Option.map_some, List.append_nil]

end Program

/-! ## A program that is watched -/

namespace Program

variable {β : Type}

/-- The program `P` with a note `β` beside its shared state: `see` says what the
step of a thread does to the note. No step reads it. -/
def watch (P : Program σ ℓ α ρ) (see : ℓ → β → β) : Program (σ × β) ℓ α ρ where
  env s n a := (P.env s.1 n a).map fun p => ((p.1, s.2), p.2)
  exec s i l r := (P.exec s.1 i l r).map fun p => ((p.1, see l s.2), p.2)

/-- What the environment does to a watched program. -/
theorem watch_env {P : Program σ ℓ α ρ} {see : ℓ → β → β} {s : σ × β} {n : Nat} {a : α}
    {s' : σ × β} {new : List ℓ} (h : (P.watch see).env s n a = some (s', new)) :
    P.env s.1 n a = some (s'.1, new) ∧ s'.2 = s.2 := by
  obtain ⟨p, hp, hs⟩ := Option.map_eq_some_iff.mp h
  cases hs
  exact ⟨hp, rfl⟩

/-- What a thread of a watched program does. -/
theorem watch_exec {P : Program σ ℓ α ρ} {see : ℓ → β → β} {s : σ × β} {i : Nat} {l : ℓ} {r : ρ}
    {s' : σ × β} {l' : ℓ} (h : (P.watch see).exec s i l r = some (s', l')) :
    P.exec s.1 i l r = some (s'.1, l') ∧ s'.2 = see l s.2 := by
  obtain ⟨p, hp, hs⟩ := Option.map_eq_some_iff.mp h
  cases hs
  exact ⟨hp, rfl⟩

/-- Watching neither adds nor prevents a move. -/
theorem watch_step (P : Program σ ℓ α ρ) (see : ℓ → β → β) (s : Conf (σ × β) ℓ) (m : Move α ρ) :
    ((P.watch see).step s m).map (fun t => Conf.mk t.shared.1 t.threads)
      = P.step ⟨s.shared.1, s.threads⟩ m := by
  cases m with
  | env a =>
    simp only [step, watch, Option.map_map]
    rfl
  | run i r =>
    simp only [step, watch]
    split
    · rfl
    · rw [Option.map_map, Option.map_map]
      rfl

/-- A run that is watched is a run. -/
theorem Reach.of_watch {P : Program σ ℓ α ρ} {see : ℓ → β → β}
    {ok : Conf (σ × β) ℓ → Move α ρ → Prop} {s₀ s : Conf (σ × β) ℓ}
    (h : (P.watch see).Reach ok s₀ s) :
    P.Reach (fun _ _ => True) ⟨s₀.shared.1, s₀.threads⟩ ⟨s.shared.1, s.threads⟩ := by
  induction h with
  | refl => exact ReflTransGen.refl
  | tail _ hbc ih =>
    obtain ⟨m, _, hst⟩ := hbc
    refine ih.tail ⟨m, trivial, ?_⟩
    rw [← watch_step, hst]
    rfl

end Program

/-! ## The pool after one thread stepped -/

/-- A thread of the new pool is the one that stepped or one of the others. -/
theorem mem_set_cases {ts : List ℓ} {i : Nat} {l l' m : ℓ} (hl : ts[i]? = some l)
    (hm : m ∈ ts.set i l') : m = l' ∨ ∃ j, i ≠ j ∧ ts[j]? = some m := by
  obtain ⟨j, hj⟩ := List.mem_iff_getElem?.mp hm
  by_cases hij : i = j
  · subst hij
    rw [List.getElem?_set_self (List.getElem?_eq_some_iff.mp hl).1] at hj
    exact Or.inl (Option.some.inj hj).symm
  · rw [List.getElem?_set_ne hij] at hj
    exact Or.inr ⟨j, hij, hj⟩

/-- The other threads are still there. -/
theorem mem_set_of_ne {ts : List ℓ} {i j : Nat} {m : ℓ} (hij : i ≠ j) (hj : ts[j]? = some m)
    (l' : ℓ) : m ∈ ts.set i l' :=
  List.mem_iff_getElem?.mpr ⟨j, by rw [List.getElem?_set_ne hij]; exact hj⟩

/-- The thread that stepped is at its new place. -/
theorem mem_set_self {ts : List ℓ} {i : Nat} {l : ℓ} (hl : ts[i]? = some l) (l' : ℓ) :
    l' ∈ ts.set i l' :=
  List.mem_iff_getElem?.mpr ⟨i, List.getElem?_set_self (List.getElem?_eq_some_iff.mp hl).1⟩

/-! ## One entry of a list -/

/-- An entry of the new list is the one that was set or one of the others. -/
theorem getElem?_set_cases {α : Type} {as : List α} {i j : Nat} {a a' b : α}
    (ha : as[i]? = some a) (h : (as.set i a')[j]? = some b) :
    j = i ∧ b = a' ∨ j ≠ i ∧ as[j]? = some b := by
  by_cases hj : j = i
  · subst hj
    rw [List.getElem?_set_self (List.getElem?_eq_some_iff.mp ha).1] at h
    exact Or.inl ⟨rfl, (Option.some.inj h).symm⟩
  · rw [List.getElem?_set_ne (fun he => hj he.symm)] at h
    exact Or.inr ⟨hj, h⟩

/-- An entry of the longer list is one of the old or the new one. -/
theorem getElem?_append_cases {α : Type} {as : List α} {j : Nat} {a b : α}
    (h : (as ++ [a])[j]? = some b) : as[j]? = some b ∨ j = as.length ∧ b = a := by
  by_cases hj : j < as.length
  · rw [List.getElem?_append_left hj] at h
    exact Or.inl h
  · rw [List.getElem?_append_right (by omega), List.getElem?_singleton] at h
    split at h
    · exact Or.inr ⟨by omega, (Option.some.inj h).symm⟩
    · cases h

end Interleave
