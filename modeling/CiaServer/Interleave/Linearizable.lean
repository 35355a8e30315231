import CiaServer.Interleave.Program

/-!
# Linearizable objects

An object whose operations take several steps, each call being a thread. What
the operations mean is a sequential object: `spec d op` is the value after `op`
on `d` and its result, or `none` if `op` has to wait.

Somewhere in between a call has its effect (`Effect`): from `pending` it becomes
`effected`, and `returned` at the end (`Call`). `logged` keeps the effects in the
order in which they happen. `Linearized`: the effects, done one after the other,
lead to the value of the object, and each call returns what its own effect gave.
Since a call has its effect while it runs, that order agrees with the order of
calls that do not overlap (`keepsOrder`).

`linearized` is the rule: it asks that every step either has no effect or is the
effect of its call (`CommitStep`).
-/

namespace Interleave

open Relation (ReflTransGen)

/-- What call number `call` did. -/
structure Effect (Op Res : Type) where
  call : Nat
  op : Op
  res : Res
  deriving DecidableEq, Repr

/-- How far a call is. -/
inductive Call (Op Res : Type) where
  | pending (op : Op)
  | effected (op : Op) (res : Res)
  | returned (op : Op) (res : Res)
  deriving DecidableEq, Repr

variable {δ Op Res : Type}

/-- The effect call number `i` has had. -/
def Call.effect (i : Nat) : Call Op Res → Option (Effect Op Res)
  | .pending _ => none
  | .effected op res => some { call := i, op, res }
  | .returned op res => some { call := i, op, res }

section
variable [DecidableEq Res]

/-- One effect of the sequential object. -/
def replayStep (spec : δ → Op → Option (δ × Res)) (d : δ) (e : Effect Op Res) : Option δ :=
  match spec d e.op with
  | none => none
  | some p => if p.2 = e.res then some p.1 else none

/-- The value after effects one after the other, if they are possible. -/
def replay (spec : δ → Op → Option (δ × Res)) : δ → List (Effect Op Res) → Option δ :=
  runs (replayStep spec)

/-- The effects `es`, in this order, explain the value `d` and the calls `cs`. -/
structure Linearized (spec : δ → Op → Option (δ × Res)) (d₀ : δ) (es : List (Effect Op Res))
    (d : δ) (cs : List (Call Op Res)) : Prop where
  legal : replay spec d₀ es = some d
  once : (es.map Effect.call).Nodup
  own : ∀ e, e ∈ es ↔ ∃ c, cs[e.call]? = some c ∧ c.effect e.call = some e

theorem replay_concat {spec : δ → Op → Option (δ × Res)} {d₀ d d' : δ} {es : List (Effect Op Res)}
    {e : Effect Op Res} (h : replay spec d₀ es = some d) (he : spec d e.op = some (d', e.res)) :
    replay spec d₀ (es ++ [e]) = some d' := by
  have hstep : replayStep spec d e = some d' := by
    rw [replayStep, he]
    exact if_pos rfl
  unfold replay at h ⊢
  rw [runs_append, h, Option.bind_some, runs_cons]
  exact ⟨d', hstep, rfl⟩

namespace Linearized

variable {spec : δ → Op → Option (δ × Res)} {d₀ d d' : δ} {es : List (Effect Op Res)}
  {cs : List (Call Op Res)} {i : Nat} {c c' : Call Op Res}

/-- A call without an effect is begun. -/
theorem append (h : Linearized spec d₀ es d cs) {new : List (Call Op Res)}
    (hnew : ∀ c ∈ new, ∀ i, c.effect i = none) : Linearized spec d₀ es d (cs ++ new) := by
  refine ⟨h.legal, h.once, fun e => (h.own e).trans ?_⟩
  constructor
  · rintro ⟨c, hc, he⟩
    have hlt := (List.getElem?_eq_some_iff.mp hc).1
    exact ⟨c, by rw [List.getElem?_append_left hlt]; exact hc, he⟩
  · rintro ⟨c, hc, he⟩
    by_cases hlt : e.call < cs.length
    · rw [List.getElem?_append_left hlt] at hc
      exact ⟨c, hc, he⟩
    · rw [List.getElem?_append_right (by omega)] at hc
      rw [hnew c (List.mem_of_getElem? hc)] at he
      cases he

/-- A call goes on without an effect. -/
theorem silent (h : Linearized spec d₀ es d cs) (hc : cs[i]? = some c)
    (he : c'.effect i = c.effect i) : Linearized spec d₀ es d (cs.set i c') := by
  have hlt := (List.getElem?_eq_some_iff.mp hc).1
  refine ⟨h.legal, h.once, fun e => (h.own e).trans ?_⟩
  by_cases hie : i = e.call
  · subst hie
    rw [List.getElem?_set_self hlt, hc]
    constructor
    · rintro ⟨_, ⟨⟩, hb⟩
      exact ⟨c', rfl, he.trans hb⟩
    · rintro ⟨_, ⟨⟩, hb⟩
      exact ⟨c, rfl, he.symm.trans hb⟩
  · rw [List.getElem?_set_ne hie]

/-- A call has its effect. -/
theorem commit (h : Linearized spec d₀ es d cs) {op : Op} {res : Res}
    (hc : cs[i]? = some (.pending op)) (hs : spec d op = some (d', res)) :
    Linearized spec d₀ (es ++ [{ call := i, op, res }]) d' (cs.set i (.effected op res)) := by
  have hlt := (List.getElem?_eq_some_iff.mp hc).1
  -- it has had none before
  have hnew : ∀ e ∈ es, e.call ≠ i := by
    rintro e he rfl
    obtain ⟨c, hc', hce⟩ := (h.own e).mp he
    cases hc.symm.trans hc'
    cases hce
  refine ⟨replay_concat h.legal hs, ?_, fun e => ?_⟩
  · rw [List.map_append]
    refine List.nodup_append.mpr ⟨h.once, List.nodup_singleton _, ?_⟩
    intro a ha b hb
    obtain ⟨e, he, rfl⟩ := List.mem_map.mp ha
    rw [List.mem_singleton.mp hb]
    exact hnew e he
  · rw [List.mem_append, List.mem_singleton]
    by_cases hie : i = e.call
    · subst hie
      rw [List.getElem?_set_self hlt]
      constructor
      · rintro (he | he)
        · exact absurd rfl (hnew e he)
        · exact ⟨_, rfl, congrArg some he.symm⟩
      · rintro ⟨_, ⟨⟩, he⟩
        exact Or.inr (Option.some.inj he).symm
    · rw [List.getElem?_set_ne hie, ← h.own e]
      constructor
      · rintro (he | rfl)
        · exact he
        · exact absurd rfl hie
      · exact Or.inl

end Linearized

end

/-! ## The program of an object -/

namespace Program

variable {σ ℓ α ρ : Type}

/-- The program `P` with the effects of its steps noted, the newest last. No step
reads them. -/
def logged (P : Program σ ℓ α ρ) (effect : σ → Nat → ℓ → Option (Effect Op Res)) :
    Program (σ × List (Effect Op Res)) ℓ α ρ where
  env s n a := (P.env s.1 n a).map fun p => ((p.1, s.2), p.2)
  exec s i l r := (P.exec s.1 i l r).map fun p => ((p.1, s.2 ++ (effect s.1 i l).toList), p.2)

/-- Noting the effects neither adds nor prevents a move. -/
theorem logged_step (P : Program σ ℓ α ρ) (effect : σ → Nat → ℓ → Option (Effect Op Res))
    (s : Conf (σ × List (Effect Op Res)) ℓ) (m : Move α ρ) :
    ((P.logged effect).step s m).map (fun t => Conf.mk t.shared.1 t.threads)
      = P.step ⟨s.shared.1, s.threads⟩ m := by
  cases m with
  | env a =>
    simp only [step, logged, Option.map_map]
    rfl
  | run i r =>
    simp only [step, logged]
    split
    · rfl
    · rw [Option.map_map, Option.map_map]
      rfl

variable {P : Program σ ℓ α ρ} {effect : σ → Nat → ℓ → Option (Effect Op Res)}
  {ok : Conf (σ × List (Effect Op Res)) ℓ → Move α ρ → Prop}

/-- A run whose effects are noted is a run. -/
theorem Reach.of_logged {s₀ s : Conf (σ × List (Effect Op Res)) ℓ}
    (h : (P.logged effect).Reach ok s₀ s) :
    P.Reach (fun _ _ => True) ⟨s₀.shared.1, s₀.threads⟩ ⟨s.shared.1, s.threads⟩ := by
  induction h with
  | refl => exact ReflTransGen.refl
  | tail _ hbc ih =>
    obtain ⟨m, _, hst⟩ := hbc
    refine ih.tail ⟨m, trivial, ?_⟩
    rw [← logged_step, hst]
    rfl

/-- A call that can go on makes a move. -/
theorem logged_run {sh : σ × List (Effect Op Res)} {ts : List ℓ} {i : Nat} {l : ℓ} {r : ρ}
    {p : σ × ℓ} (hl : ts[i]? = some l) (h : P.exec sh.1 i l r = some p) :
    (P.logged effect).step ⟨sh, ts⟩ (.run i r) =
      some ⟨(p.1, sh.2 ++ (effect sh.1 i l).toList), ts.set i p.2⟩ := by
  refine step_run hl ?_
  show Option.map _ (P.exec sh.1 i l r) = _
  rw [h]
  rfl

/-- Effects are noted for good. -/
theorem log_of_reach {s s' : Conf (σ × List (Effect Op Res)) ℓ}
    (h : (P.logged effect).Reach ok s s') : s.shared.2 <+: s'.shared.2 := by
  induction h with
  | refl => exact List.prefix_refl _
  | tail _ hbc ih =>
    obtain ⟨m, _, hst⟩ := hbc
    refine ih.trans ?_
    rcases step_cases hst with ⟨a, sh, new, rfl, he, rfl⟩ | ⟨i, r, l, sh, l', rfl, _, he, rfl⟩
    · obtain ⟨p, _, hp⟩ := Option.map_eq_some_iff.mp he
      cases hp
      exact List.prefix_refl _
    · obtain ⟨p, _, hp⟩ := Option.map_eq_some_iff.mp he
      cases hp
      exact List.prefix_append _ _

/-- What a step of call `i` does to the value: nothing, or its effect. -/
inductive CommitStep (spec : δ → Op → Option (δ × Res)) (view : ℓ → Call Op Res) (d : δ) (i : Nat)
    (l : ℓ) (e : Option (Effect Op Res)) (d' : δ) (l' : ℓ) : Prop where
  | silent (he : e = none) (hd : d' = d) (hv : (view l').effect i = (view l).effect i)
  | commit {op : Op} {res : Res} (he : e = some { call := i, op, res })
    (hl : view l = .pending op) (hs : spec d op = some (d', res))
    (hl' : view l' = .effected op res)

variable [DecidableEq Res] {spec : δ → Op → Option (δ × Res)} {view : ℓ → Call Op Res}

/-- **The rule**: an object whose steps are effects of their calls, or none, is
linearized by the effects in the order in which they happen. -/
theorem linearized (value : σ → δ) (sh₀ : σ)
    (henv : ∀ (sh : σ) (ts : List ℓ) (a : α) (sh' : σ) (new : List ℓ), P.env sh ts.length a = some (sh', new) →
      value sh' = value sh ∧ ∀ l ∈ new, ∀ i, (view l).effect i = none)
    (hexec : ∀ (sh : σ) (ts : List ℓ) (i : Nat) (l : ℓ) (r : ρ) (sh' : σ) (l' : ℓ),
      P.Reach (fun _ _ => True) ⟨sh₀, []⟩ ⟨sh, ts⟩ → ts[i]? = some l → P.exec sh i l r = some (sh', l') →
      CommitStep spec view (value sh) i l (effect sh i l) (value sh') l')
    {s : Conf (σ × List (Effect Op Res)) ℓ}
    (h : (P.logged effect).Reach ok ⟨(sh₀, []), []⟩ s) :
    Linearized spec (value sh₀) s.shared.2 (value s.shared.1) (s.threads.map view) := by
  refine Reach.rule (I := fun sh ts =>
    Linearized spec (value sh₀) sh.2 (value sh.1) (ts.map view)) ?_ ?_ ?_ h
  · refine ⟨rfl, List.nodup_nil, fun e => ⟨nofun, ?_⟩⟩
    rintro ⟨c, hc, _⟩
    cases hc
  · intro sh ts a sh' new _ hi _ he
    obtain ⟨p, hp, hs⟩ := Option.map_eq_some_iff.mp he
    cases hs
    obtain ⟨hv, hnew⟩ := henv sh.1 ts a p.1 p.2 hp
    rw [List.map_append]
    show Linearized spec (value sh₀) sh.2 (value p.1) _
    rw [hv]
    refine hi.append ?_
    intro c hc
    obtain ⟨l, hl, rfl⟩ := List.mem_map.mp hc
    exact hnew l hl
  · intro sh ts i l r sh' l' hreach hi _ hl he
    obtain ⟨p, hp, hs⟩ := Option.map_eq_some_iff.mp he
    cases hs
    have hc : (ts.map view)[i]? = some (view l) := by
      rw [List.getElem?_map, hl]
      rfl
    show Linearized spec (value sh₀) (sh.2 ++ (effect sh.1 i l).toList) (value p.1)
      ((ts.set i p.2).map view)
    rw [List.map_set]
    cases hexec sh.1 ts i l r p.1 p.2 hreach.of_logged hl hp with
    | silent heff hd hv =>
      rw [heff, hd, Option.toList_none, List.append_nil]
      exact hi.silent hc hv
    | commit heff hpend hspec hdone =>
      rw [heff, hdone]
      rw [hpend] at hc
      exact hi.commit hc hspec

/-- In every run from `s` on, what has returned at `s` has its effect before what begins
after `s`. -/
def KeepsOrder (P : Program σ ℓ α ρ) (effect : σ → Nat → ℓ → Option (Effect Op Res))
    (view : ℓ → Call Op Res) (s : Conf (σ × List (Effect Op Res)) ℓ) : Prop :=
  ∀ s', (P.logged effect).Reach (fun _ _ => True) s s' →
    ∀ i op res e, (s.threads.map view)[i]? = some (.returned op res) → e ∈ s'.shared.2 →
      s.threads.length ≤ e.call →
      ∃ pre post, s'.shared.2 = pre ++ post ∧ { call := i, op, res } ∈ pre ∧ e ∈ post

/-- **The order of the effects agrees with the order of the calls.** -/
theorem keepsOrder {s : Conf (σ × List (Effect Op Res)) ℓ} {d₀ d : δ}
    (hlin : Linearized spec d₀ s.shared.2 d (s.threads.map view)) : KeepsOrder P effect view s := by
  intro s' hreach i op res e hi he hj
  obtain ⟨post, hpost⟩ := log_of_reach hreach
  refine ⟨s.shared.2, post, hpost.symm, (hlin.own _).mpr ⟨_, hi, rfl⟩, ?_⟩
  rw [← hpost] at he
  rcases List.mem_append.mp he with hold | hnew
  · obtain ⟨c, hc, _⟩ := (hlin.own e).mp hold
    have hlt := (List.getElem?_eq_some_iff.mp hc).1
    rw [List.length_map] at hlt
    omega
  · exact hnew

end Program

end Interleave
