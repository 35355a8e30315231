import CiaServer.Interleave.Linearizable
import CiaServer.Interleave.Monitor
import CiaServer.Interleave.Simulation
import CiaServer.Machine.Answers

/-!
# Programs over the code of their objects

A program may use objects as if each call were one step. `withObjects` is the
same program over the code of the objects: a thread that calls one runs through
that code in steps of its own, taking the object's lock, working on its data
and giving the lock back, while the other threads go on.

`reach_of_withObjects`: nothing new is reached. A call has its effect in one of
its steps, and that is where the first program makes its one step. What a thread
does after the call may depend on the time at which it returns, which is later
than that; so the thread of the first program may be ahead (`le`), as one that
sleeps until an earlier moment is.
-/

namespace Interleave

open Machine (forall₂_set forall₂_getElem?)

/-- The operation of a call. -/
def Call.op {Op Res : Type} : Call Op Res → Op
  | .pending op => op
  | .effected op _ => op
  | .returned op _ => op

/-- What a step of a call does to the value of its object. -/
inductive EffectStep {δ Op Res : Type} (spec : δ → Op → Option (δ × Res)) (d : δ)
    (c : Call Op Res) (d' : δ) (c' : Call Op Res) : Prop where
  | silent (hd : d' = d) (hc : c' = c)
  | commit {op : Op} {res : Res} (hc : c = .pending op) (hs : spec d op = some (d', res))
    (hc' : c' = .effected op res)
  | finish {op : Op} {res : Res} (hd : d' = d) (hc : c = .effected op res)
    (hc' : c' = .returned op res)

theorem EffectStep.op_eq {δ Op Res : Type} {spec : δ → Op → Option (δ × Res)} {d d' : δ}
    {c c' : Call Op Res} (h : EffectStep spec d c d' c') : c'.op = c.op := by
  cases h with
  | silent _ hc => rw [hc]
  | commit hc _ hc' => rw [hc, hc']; rfl
  | finish _ hc hc' => rw [hc, hc']; rfl

/-- The same step, of threads that hold the same. -/
theorem LockStep.congr {ℓ ℓ' : Type} {holds : ℓ → Bool} {holds' : ℓ' → Bool} {b b' : Bool}
    {l l' : ℓ} {m m' : ℓ'} (h : LockStep holds b l b' l') (hm : holds' m = holds l)
    (hm' : holds' m' = holds l') : LockStep holds' b m b' m' := by
  cases h with
  | outside hl hl' he => exact .outside (hm.trans hl) (hm'.trans hl') he
  | acquire hl hl' hf ht => exact .acquire (hm.trans hl) (hm'.trans hl') hf ht
  | inside hl hl' he => exact .inside (hm.trans hl) (hm'.trans hl') he
  | release hl hl' hf => exact .release (hm.trans hl) (hm'.trans hl') hf

/-- The code of an object: its calls work on its value under one lock. -/
structure ObjectCode (O π δ Op Res : Type) where
  begin : Op → π
  exec : O → Nat → π → Option (O × π)
  call : π → Call Op Res
  value : O → δ
  locked : O → Bool
  holds : π → Bool
  /-- What a call that has the lock knows of the value. -/
  Knows : δ → π → Prop
  /-- Nothing was done to the object that it does not allow. -/
  Sound : O → Prop

variable {σ ℓ α ρ O π δ Op Res κ : Type}

/-- A call knows what its place says, if it has the lock. -/
def ObjectCode.Aware (C : ObjectCode O π δ Op Res) (o : O) (p : π) : Prop :=
  C.holds p = true → C.Knows (C.value o) p

/-- The code does what `spec` says, in one of its steps, under the lock. -/
structure ObjectCode.Lawful (C : ObjectCode O π δ Op Res) (spec : δ → Op → Option (δ × Res)) :
    Prop where
  call_begin : ∀ op, C.call (C.begin op) = .pending op
  holds_begin : ∀ op, C.holds (C.begin op) = false
  holds_returned : ∀ {p op res}, C.call p = .returned op res → C.holds p = false
  lockStep : ∀ {o i p o' p'}, C.Aware o p → C.exec o i p = some (o', p') →
    LockStep C.holds (C.locked o) p (C.locked o') p'
  frame : ∀ {o i p o' p'}, C.exec o i p = some (o', p') → C.holds p = false →
    C.value o' = C.value o
  knows : ∀ {o i p o' p'}, C.Aware o p → C.exec o i p = some (o', p') → C.Aware o' p'
  sound : ∀ {o i p o' p'}, C.Aware o p → C.exec o i p = some (o', p') → C.Sound o → C.Sound o'
  effect : ∀ {o i p o' p'}, C.Aware o p → C.exec o i p = some (o', p') →
    EffectStep spec (C.value o) (C.call p) (C.value o') (C.call p')
  /-- A call that has the lock, or can get it, can go on. -/
  goesOn : ∀ {o p} i, (C.locked o = true → C.holds p = true) →
    (∀ op res, C.call p ≠ .returned op res) → ∃ q, C.exec o i p = some q

/-- Where a program calls its objects, and where it keeps their values. -/
structure Usage (σ ℓ κ δ Op Res : Type) where
  uses : ℓ → Option (κ × Op)
  /-- Where a thread goes on that comes back from its call at a given time. -/
  resume : Nat → ℓ → Res → ℓ
  get : σ → κ → δ
  put : σ → (κ → δ) → σ
  clock : σ → Nat
  alive : σ → Bool
  /-- The second place is the first, or ahead of it. -/
  le : ℓ → ℓ → Prop

/-- The program `P` makes each call in one step, and touches the objects nowhere else. -/
structure Usage.Lawful [DecidableEq κ] (U : Usage σ ℓ κ δ Op Res) (P : Program σ ℓ α ρ)
    (spec : δ → Op → Option (δ × Res)) : Prop where
  get_put : ∀ s v, U.get (U.put s v) = v
  put_get : ∀ s, U.put s (U.get s) = s
  put_put : ∀ s v w, U.put (U.put s v) w = U.put s w
  clock_put : ∀ s v, U.clock (U.put s v) = U.clock s
  alive_put : ∀ s v, U.alive (U.put s v) = U.alive s
  exec_uses : ∀ {s i l k op} r, U.uses l = some (k, op) → U.alive s = true →
    P.exec s i l r = (spec (U.get s k) op).map fun p =>
      (U.put s (Function.update (U.get s) k p.1), U.resume (U.clock s) l p.2)
  exec_frame : ∀ {s i l r s' l'}, U.uses l = none → P.exec s i l r = some (s', l') →
    U.get s' = U.get s ∧ U.clock s ≤ U.clock s'
  env_frame : ∀ {s n a s' new}, P.env s n a = some (s', new) →
    U.get s' = U.get s ∧ U.clock s ≤ U.clock s'
  le_refl : ∀ l, U.le l l
  le_uses : ∀ {l m u}, U.le l m → U.uses l = some u → m = l
  le_exec : ∀ {l m s i r s' l'}, U.le l m → U.uses l = none → P.exec s i l r = some (s', l') →
    ∃ m', P.exec s i m r = some (s', m') ∧ U.le l' m'
  le_resume : ∀ {t t' : Nat} l res, t ≤ t' → U.le (U.resume t' l res) (U.resume t l res)

/-- Where a thread of the first program stands for one of the second: after a call that has
had its effect it goes on, as if it had returned at once. -/
def Usage.Stands (U : Usage σ ℓ κ δ Op Res) (C : ObjectCode O π δ Op Res) (now : Nat) :
    ℓ × Option π → ℓ → Prop
  | (l, none), m => U.le l m
  | (l, some p), m =>
    match C.call p with
    | .pending _ => m = l
    | .effected _ res => ∃ t, t ≤ now ∧ m = U.resume t l res
    | .returned _ res => ∃ t, t ≤ now ∧ m = U.resume t l res

theorem Usage.Stands.later {U : Usage σ ℓ κ δ Op Res} {C : ObjectCode O π δ Op Res}
    {now now' : Nat} (hle : now ≤ now') {t : ℓ × Option π} {m : ℓ}
    (h : U.Stands C now t m) : U.Stands C now' t m := by
  obtain ⟨l, p⟩ := t
  cases p with
  | none => exact h
  | some p =>
    unfold Stands at h ⊢
    dsimp only at h ⊢
    split
    · next hc => rw [hc] at h; exact h
    · next hc =>
      rw [hc] at h
      obtain ⟨t, ht, hm⟩ := h
      exact ⟨t, Nat.le_trans ht hle, hm⟩
    · next hc =>
      rw [hc] at h
      obtain ⟨t, ht, hm⟩ := h
      exact ⟨t, Nat.le_trans ht hle, hm⟩

section
variable [DecidableEq κ] (P : Program σ ℓ α ρ) (U : Usage σ ℓ κ δ Op Res)
  (C : ObjectCode O π δ Op Res)

/-- The shared state the program sees. -/
def Usage.shared (sh : σ × (κ → O)) : σ := U.put sh.1 fun k => C.value (sh.2 k)

/-- The program over the code of its objects. A thread inside a call stands where it
made the call, and somewhere in the object's code. -/
def Program.withObjects : Program (σ × (κ → O)) (ℓ × Option π) α ρ where
  env sh n a := (P.env (U.shared C sh) n a).map fun p => ((p.1, sh.2), p.2.map fun l => (l, none))
  exec sh i t r :=
    match t with
    | (l, none) =>
      match U.uses l with
      | none => (P.exec (U.shared C sh) i l r).map fun p => ((p.1, sh.2), (p.2, none))
      | some (_, op) => if U.alive sh.1 then some (sh, (l, some (C.begin op))) else none
    | (l, some p) =>
      if U.alive sh.1 then
        match C.call p with
        | .returned _ res => some (sh, (U.resume (U.clock sh.1) l res, none))
        | _ =>
          match U.uses l with
          | none => none
          | some (k, _) =>
            (C.exec (sh.2 k) i p).map fun q =>
              ((sh.1, Function.update sh.2 k q.1), (l, some q.2))
      else none

/-- A step of a thread: its own, into a call, inside it, or back from it. -/
inductive ObjectStep (sh : σ × (κ → O)) (i : Nat) (r : ρ) :
    ℓ × Option π → σ × (κ → O) → ℓ × Option π → Prop where
  | own {l l' : ℓ} {s' : σ} (hu : U.uses l = none)
    (h : P.exec (U.shared C sh) i l r = some (s', l')) :
    ObjectStep sh i r (l, none) (s', sh.2) (l', none)
  | enter {l : ℓ} {k : κ} {op : Op} (hu : U.uses l = some (k, op)) :
    ObjectStep sh i r (l, none) sh (l, some (C.begin op))
  | leave {l : ℓ} {p : π} {op : Op} {res : Res} (hc : C.call p = .returned op res) :
    ObjectStep sh i r (l, some p) sh (U.resume (U.clock sh.1) l res, none)
  | inside {l : ℓ} {p p' : π} {k : κ} {op : Op} {o' : O} (hu : U.uses l = some (k, op))
    (ha : U.alive sh.1 = true) (h : C.exec (sh.2 k) i p = some (o', p')) :
    ObjectStep sh i r (l, some p) (sh.1, Function.update sh.2 k o') (l, some p')

end

section
variable [DecidableEq κ] {P : Program σ ℓ α ρ} {U : Usage σ ℓ κ δ Op Res}
  {C : ObjectCode O π δ Op Res} {spec : δ → Op → Option (δ × Res)}

theorem objectStep_of_exec {sh sh' : σ × (κ → O)} {i : Nat} {t t' : ℓ × Option π} {r : ρ}
    (h : (P.withObjects U C).exec sh i t r = some (sh', t')) :
    ObjectStep P U C sh i r t sh' t' := by
  obtain ⟨l, p⟩ := t
  cases p with
  | none =>
    simp only [Program.withObjects] at h
    split at h
    · next hu =>
      obtain ⟨q, hq, he⟩ := Option.map_eq_some_iff.mp h
      cases he
      exact .own hu hq
    · next hu =>
      split at h <;> cases h
      exact .enter hu
  | some p =>
    simp only [Program.withObjects] at h
    split at h
    · next ha =>
      split at h
      · next hc =>
        cases h
        exact .leave hc
      · split at h
        · cases h
        · next hu =>
          obtain ⟨q, hq, he⟩ := Option.map_eq_some_iff.mp h
          cases he
          exact .inside hu ha hq
    · cases h

/-! ## The locks of the objects -/

/-- The call a thread has running in object `k`. -/
def Usage.inside (U : Usage σ ℓ κ δ Op Res) (k : κ) : ℓ × Option π → Option π
  | (l, some p) => if (U.uses l).map Prod.fst = some k then some p else none
  | (_, none) => none

def Usage.holds (U : Usage σ ℓ κ δ Op Res) (C : ObjectCode O π δ Op Res) (k : κ)
    (t : ℓ × Option π) : Bool := (U.inside k t).any C.holds

def Usage.Knows (U : Usage σ ℓ κ δ Op Res) (C : ObjectCode O π δ Op Res) (k : κ) (d : δ)
    (t : ℓ × Option π) : Prop := ∀ p, U.inside k t = some p → C.Knows d p

/-- Each lock has one holder or none, and a thread inside a call makes the operation that
the program asked for. -/
structure ObjectsInv (U : Usage σ ℓ κ δ Op Res) (C : ObjectCode O π δ Op Res)
    (sh : σ × (κ → O)) (ts : List (ℓ × Option π)) : Prop where
  monitor : ∀ k, MonitorInv (U.holds C k) (U.Knows C k) (C.locked (sh.2 k)) (C.value (sh.2 k)) ts
  calls : ∀ l p, (l, some p) ∈ ts → ∃ k op, U.uses l = some (k, op) ∧ (C.call p).op = op
  sound : ∀ k, C.Sound (sh.2 k)

theorem Usage.inside_of_uses {l : ℓ} {k : κ} {op : Op} (hu : U.uses l = some (k, op)) (j : κ)
    (p : π) : U.inside j (l, some p) = if k = j then some p else none := by
  simp only [inside, hu, Option.map_some, Option.some.injEq]

/-- Outside the code of an object nobody has its lock. -/
theorem Usage.holds_none (k : κ) (l : ℓ) : U.holds C k (l, none) = false := rfl

theorem Usage.holds_of_free {p : π} (hp : C.holds p = false) (k : κ) (l : ℓ) :
    U.holds C k (l, some p) = false := by
  simp only [holds, inside]
  split
  · exact hp
  · rfl

theorem Usage.holds_inside {l : ℓ} {k : κ} {op : Op} (hu : U.uses l = some (k, op)) (p : π) :
    U.holds C k (l, some p) = C.holds p := by
  rw [holds, U.inside_of_uses hu, if_pos rfl]
  rfl

theorem Usage.holds_elsewhere {l : ℓ} {k j : κ} {op : Op} (hu : U.uses l = some (k, op))
    (hkj : k ≠ j) (p : π) : U.holds C j (l, some p) = false := by
  rw [holds, U.inside_of_uses hu, if_neg hkj]
  rfl

/-- A thread inside a call knows what its place says, if it has the lock. -/
theorem ObjectsInv.aware {sh : σ × (κ → O)} {ts : List (ℓ × Option π)} (hi : ObjectsInv U C sh ts)
    {i : Nat} {l : ℓ} {p : π} {k : κ} {op : Op} (ht : ts[i]? = some (l, some p))
    (hu : U.uses l = some (k, op)) : C.Aware (sh.2 k) p := by
  intro hp
  refine (hi.monitor k).knows _ (List.mem_of_getElem? ht) ?_ p ?_
  · rw [U.holds_inside hu]
    exact hp
  · rw [U.inside_of_uses hu, if_pos rfl]

theorem ObjectsInv.append {sh : σ × (κ → O)} {ts : List (ℓ × Option π)}
    (hi : ObjectsInv U C sh ts) (s' : σ) (new : List ℓ) :
    ObjectsInv U C (s', sh.2) (ts ++ new.map fun l => (l, none)) := by
  refine ⟨fun k => (hi.monitor k).append ?_, ?_, hi.sound⟩
  · intro t ht
    obtain ⟨l, _, rfl⟩ := List.mem_map.mp ht
    exact U.holds_none k l
  · intro l p hmem
    rcases List.mem_append.mp hmem with hmem | hmem
    · exact hi.calls l p hmem
    · obtain ⟨m, _, hm⟩ := List.mem_map.mp hmem
      cases hm

/-- A step outside every lock. -/
theorem ObjectsInv.outside {sh : σ × (κ → O)} {ts : List (ℓ × Option π)}
    (hi : ObjectsInv U C sh ts) {i : Nat} {t t' : ℓ × Option π} (ht : ts[i]? = some t) (s' : σ)
    (hfree : ∀ k, U.holds C k t = false) (hfree' : ∀ k, U.holds C k t' = false)
    (hcall : ∀ l p, t' = (l, some p) → ∃ k op, U.uses l = some (k, op) ∧ (C.call p).op = op) :
    ObjectsInv U C (s', sh.2) (ts.set i t') := by
  refine ⟨fun k => (hi.monitor k).step ht (.outside (hfree k) (hfree' k) rfl) (fun _ => rfl) ?_,
    ?_, hi.sound⟩
  · intro hh
    rw [hfree' k] at hh
    cases hh
  · intro l p hmem
    rcases mem_set_cases ht hmem with he | ⟨j, _, hj⟩
    · exact hcall l p he.symm
    · exact hi.calls l p (List.mem_of_getElem? hj)

theorem ObjectsInv.step (hC : C.Lawful spec) {sh sh' : σ × (κ → O)} {ts : List (ℓ × Option π)}
    (hi : ObjectsInv U C sh ts) {i : Nat} {t t' : ℓ × Option π} {r : ρ} (ht : ts[i]? = some t)
    (h : ObjectStep P U C sh i r t sh' t') : ObjectsInv U C sh' (ts.set i t') := by
  cases h with
  | own => exact hi.outside ht _ (fun k => U.holds_none k _) (fun k => U.holds_none k _) nofun
  | @enter l k op hu =>
    refine hi.outside ht _ (fun k => U.holds_none k _)
      (fun k => U.holds_of_free (hC.holds_begin op) k l) ?_
    rintro _ _ ⟨⟩
    exact ⟨k, op, hu, by rw [hC.call_begin]; rfl⟩
  | leave hc =>
    exact hi.outside ht _ (fun k => U.holds_of_free (hC.holds_returned hc) k _)
      (fun k => U.holds_none k _) nofun
  | @inside l p p' k op o' hu _ he =>
    have haware := hi.aware ht hu
    refine ⟨fun j => ?_, ?_, fun j => ?_⟩
    · by_cases hkj : k = j
      · subst hkj
        dsimp only
        rw [Function.update_self]
        refine (hi.monitor k).step ht ?_ ?_ ?_
        · exact (hC.lockStep haware he).congr (U.holds_inside hu p) (U.holds_inside hu p')
        · intro hfree
          rw [U.holds_inside hu] at hfree
          exact hC.frame he hfree
        · intro hh q hq
          rw [U.holds_inside hu] at hh
          rw [U.inside_of_uses hu, if_pos rfl] at hq
          cases hq
          exact hC.knows haware he hh
      · dsimp only
        rw [Function.update_of_ne (Ne.symm hkj)]
        refine (hi.monitor j).step ht
          (.outside (U.holds_elsewhere hu hkj p) (U.holds_elsewhere hu hkj p') rfl)
          (fun _ => rfl) ?_
        intro hh
        rw [U.holds_elsewhere hu hkj] at hh
        cases hh
    · intro m q hmem
      rcases mem_set_cases ht hmem with hm | ⟨j, _, hj⟩
      · cases hm
        obtain ⟨k', op', hu', hop⟩ := hi.calls l p (List.mem_of_getElem? ht)
        exact ⟨k', op', hu', (hC.effect haware he).op_eq.trans hop⟩
      · exact hi.calls m q (List.mem_of_getElem? hj)
    · by_cases hkj : k = j
      · subst hkj
        dsimp only
        rw [Function.update_self]
        exact hC.sound haware he (hi.sound k)
      · dsimp only
        rw [Function.update_of_ne (Ne.symm hkj)]
        exact hi.sound j

/-- Thread `i` is inside a call and can make its next step. -/
def InsideGoesOn (P : Program σ ℓ α ρ) (U : Usage σ ℓ κ δ Op Res) (C : ObjectCode O π δ Op Res)
    (sh : σ × (κ → O)) (i : Nat) (l : ℓ) (p : π) : Prop :=
  ∀ r, ∃ q, (P.withObjects U C).exec sh i (l, some p) r = some q

/-- A call that is not back, where nobody else has the lock, can go on. -/
theorem insideGoesOn (hC : C.Lawful spec) {sh : σ × (κ → O)}
    (ha : U.alive sh.1 = true) {l : ℓ} {p : π} {k : κ} {op : Op} (hu : U.uses l = some (k, op))
    (hlock : C.locked (sh.2 k) = true → C.holds p = true) (i : Nat) :
    InsideGoesOn P U C sh i l p := by
  intro r
  simp only [Program.withObjects, if_pos ha]
  split
  · exact ⟨_, rfl⟩
  · next hne =>
    rw [hu]
    obtain ⟨q, hq⟩ := hC.goesOn i hlock hne
    exact ⟨_, congrArg (Option.map _) hq⟩

/-- **A thread inside a call can go on, or the one that has the lock of the same object
can.** -/
theorem ObjectsInv.live (hC : C.Lawful spec) {sh : σ × (κ → O)} {ts : List (ℓ × Option π)}
    (hi : ObjectsInv U C sh ts) (ha : U.alive sh.1 = true) {i : Nat} {l : ℓ} {p : π}
    (hl : ts[i]? = some (l, some p)) :
    ∃ k op, U.uses l = some (k, op) ∧ (InsideGoesOn P U C sh i l p ∨
      ∃ j m q op', ts[j]? = some (m, some q) ∧ U.uses m = some (k, op') ∧ C.holds q = true ∧
        InsideGoesOn P U C sh j m q) := by
  obtain ⟨k, op, hu, _⟩ := hi.calls l p (List.mem_of_getElem? hl)
  refine ⟨k, op, hu, ?_⟩
  by_cases hlock : C.locked (sh.2 k) = true
  · -- the lock is taken, so somebody is in the code of this object with it
    obtain ⟨⟨m, o⟩, ht, hh⟩ := (hi.monitor k).exists_holder hlock
    cases o with
    | none => cases hh
    | some q =>
      obtain ⟨j, op', hu', _⟩ := hi.calls m q ht
      by_cases hjk : j = k
      · subst hjk
        rw [U.holds_inside hu'] at hh
        obtain ⟨n, hn⟩ := List.mem_iff_getElem?.mp ht
        exact Or.inr ⟨n, m, q, op', hn, hu', hh, insideGoesOn hC ha hu' (fun _ => hh) n⟩
      · rw [U.holds_elsewhere hu' hjk] at hh
        cases hh
  · exact Or.inl (insideGoesOn hC ha hu (fun h => absurd h hlock) i)

/-! ## The two programs side by side -/

/-- `t` is where the first program is, as far as `s` is what the second one has done. -/
structure StandsFor (U : Usage σ ℓ κ δ Op Res) (C : ObjectCode O π δ Op Res)
    (s : Conf (σ × (κ → O)) (ℓ × Option π)) (t : Conf σ ℓ) : Prop where
  inv : ObjectsInv U C s.shared s.threads
  shared : t.shared = U.shared C s.shared
  threads : List.Forall₂ (U.Stands C (U.clock s.shared.1)) s.threads t.threads

/-- A step inside a call changes the value of one object. -/
theorem Usage.shared_update (s : σ) (os : κ → O) (k : κ) (o' : O) :
    U.shared C (s, Function.update os k o')
      = U.put s (Function.update (fun j => C.value (os j)) k (C.value o')) := by
  refine congrArg (U.put s) (funext fun j => ?_)
  by_cases hj : j = k
  · subst hj
    simp only [Function.update_self]
  · simp only [Function.update_of_ne hj]

/-- A step that leaves the values alone leaves the shared state as it is. -/
theorem Usage.Lawful.shared_eq (hU : U.Lawful P spec) {sh : σ × (κ → O)} {s' : σ}
    (h : U.get s' = U.get (U.shared C sh)) : U.shared C (s', sh.2) = s' := by
  rw [Usage.shared, hU.get_put] at h
  rw [Usage.shared]
  dsimp only
  rw [← h, hU.put_get]

theorem StandsFor.env (hU : U.Lawful P spec) {sh : σ × (κ → O)} {ts : List (ℓ × Option π)}
    {t : Conf σ ℓ} (h : StandsFor U C ⟨sh, ts⟩ t) {a : α} {s' : σ} {new : List ℓ}
    (he : P.env (U.shared C sh) ts.length a = some (s', new)) :
    ∃ t', P.Reach (fun _ _ => True) t t' ∧
      StandsFor U C ⟨(s', sh.2), ts ++ new.map fun l => (l, none)⟩ t' := by
  obtain ⟨tsh, tts⟩ := t
  obtain rfl : tsh = U.shared C sh := h.shared
  obtain ⟨hget, hclock⟩ := hU.env_frame he
  rw [Usage.shared, hU.clock_put] at hclock
  refine ⟨⟨s', tts ++ new⟩, Program.reach_env (by rw [← h.threads.length_eq]; exact he),
    h.inv.append s' new, (hU.shared_eq hget).symm, ?_⟩
  refine List.rel_append (h.threads.imp fun _ _ hst => hst.later hclock) ?_
  rw [List.forall₂_map_left_iff]
  exact List.forall₂_same.mpr fun l _ => hU.le_refl l

theorem StandsFor.exec (hC : C.Lawful spec) (hU : U.Lawful P spec) {sh sh' : σ × (κ → O)}
    {ts : List (ℓ × Option π)} {t : Conf σ ℓ} (h : StandsFor U C ⟨sh, ts⟩ t) {i : Nat}
    {l l' : ℓ × Option π} {r : ρ} (hl : ts[i]? = some l) (hstep : ObjectStep P U C sh i r l sh' l') :
    ∃ t', P.Reach (fun _ _ => True) t t' ∧ StandsFor U C ⟨sh', ts.set i l'⟩ t' := by
  have hinv := h.inv.step hC hl hstep
  obtain ⟨tsh, tts⟩ := t
  obtain rfl : tsh = U.shared C sh := h.shared
  have hthreads : List.Forall₂ (U.Stands C (U.clock sh.1)) ts tts := h.threads
  obtain ⟨m, hm, hst⟩ : ∃ m, tts[i]? = some m ∧ U.Stands C (U.clock sh.1) l m := by
    rcases forall₂_getElem? hthreads i with ⟨hn, _⟩ | ⟨a, m, ha, hm, hst⟩
    · rw [hl] at hn
      cases hn
    · cases hl.symm.trans ha
      exact ⟨m, hm, hst⟩
  -- a step the first program does not make
  have hstays : ∀ {sh'}, U.shared C sh' = U.shared C sh → U.clock sh'.1 = U.clock sh.1 →
      ObjectsInv U C sh' (ts.set i l') → U.Stands C (U.clock sh.1) l' m →
      ∃ t', P.Reach (fun _ _ => True) ⟨U.shared C sh, tts⟩ t' ∧
        StandsFor U C ⟨sh', ts.set i l'⟩ t' := by
    intro sh' hsh hclock hinv hst'
    refine ⟨⟨U.shared C sh, tts⟩, Relation.ReflTransGen.refl, hinv, hsh.symm, ?_⟩
    have hset := forall₂_set hthreads i hst'
    obtain ⟨hlt, rfl⟩ := List.getElem?_eq_some_iff.mp hm
    rw [List.set_getElem_self] at hset
    dsimp only
    rw [hclock]
    exact hset
  cases hstep with
  | @own l l' s' hu he =>
    obtain ⟨m', hm', hle⟩ := hU.le_exec hst hu he
    obtain ⟨hget, hclock⟩ := hU.exec_frame hu he
    rw [Usage.shared, hU.clock_put] at hclock
    refine ⟨⟨s', tts.set i m'⟩, Program.reach_exec hm hm', hinv, (hU.shared_eq hget).symm, ?_⟩
    exact forall₂_set (hthreads.imp fun _ _ hs => hs.later hclock) i hle
  | @enter l k op hu =>
    refine hstays rfl rfl hinv ?_
    simp only [Usage.Stands, hC.call_begin]
    exact hU.le_uses hst hu
  | leave hc =>
    refine hstays rfl rfl hinv ?_
    unfold Usage.Stands at hst
    simp only [hc] at hst
    obtain ⟨t, ht, rfl⟩ := hst
    exact hU.le_resume _ _ ht
  | @inside l p p' k op o' hu ha he =>
    have haware := h.inv.aware hl hu
    cases hC.effect haware he with
    | silent hd hc =>
      refine hstays ?_ rfl hinv ?_
      · rw [U.shared_update, hd, Function.update_eq_self]
        rfl
      · unfold Usage.Stands at hst ⊢
        dsimp only at hst ⊢
        rw [hc]
        exact hst
    | finish hd hc hc' =>
      refine hstays ?_ rfl hinv ?_
      · rw [U.shared_update, hd, Function.update_eq_self]
        rfl
      · unfold Usage.Stands at hst ⊢
        simp only [hc] at hst
        simp only [hc']
        exact hst
    | @commit op' res hc hs hc' =>
      -- the effect is the one step of the first program
      unfold Usage.Stands at hst
      simp only [hc] at hst
      subst hst
      obtain ⟨k', op'', hu', hop⟩ := h.inv.calls m p (List.mem_of_getElem? hl)
      rw [hu] at hu'
      cases hu'
      obtain rfl : op' = op := by rw [hc] at hop; exact hop
      have halive : U.alive (U.shared C sh) = true := (hU.alive_put _ _).trans ha
      have hone : P.exec (U.shared C sh) i m r = some (U.shared C (sh.1, Function.update sh.2 k o'),
          U.resume (U.clock sh.1) m res) := by
        rw [hU.exec_uses r hu halive, Usage.shared, hU.get_put, hs, Option.map_some, hU.put_put,
          hU.clock_put, U.shared_update]
      refine ⟨_, Program.reach_exec hm hone, hinv, rfl, ?_⟩
      refine forall₂_set hthreads i ?_
      unfold Usage.Stands
      simp only [hc']
      exact ⟨U.clock sh.1, Nat.le_refl _, rfl⟩

/-- **Nothing new is reached** over the code of the objects. -/
theorem Program.Reach.withObjects (hC : C.Lawful spec) (hU : U.Lawful P spec) {s₀ : Conf σ ℓ}
    {os : κ → O} (hval : ∀ k, C.value (os k) = U.get s₀.shared k)
    (hfree : ∀ k, C.locked (os k) = false) (hsound : ∀ k, C.Sound (os k))
    {ok : Conf (σ × (κ → O)) (ℓ × Option π) → Move α ρ → Prop}
    {s : Conf (σ × (κ → O)) (ℓ × Option π)}
    (h : (P.withObjects U C).Reach ok ⟨(s₀.shared, os), s₀.threads.map fun l => (l, none)⟩ s) :
    ∃ t, P.Reach (fun _ _ => True) s₀ t ∧ StandsFor U C s t := by
  refine Reach.simulation (R := StandsFor U C) ?_ ?_ h
  · refine ⟨⟨fun k => ⟨?_, ?_⟩, ?_, hsound⟩, ?_, ?_⟩
    · rw [hfree k]
      refine tokens_eq_zero_iff.mpr fun t ht => ?_
      obtain ⟨l, _, rfl⟩ := List.mem_map.mp ht
      exact (Option.some_ne_none ()).symm
    · intro t ht hh
      obtain ⟨l, _, rfl⟩ := List.mem_map.mp ht
      cases hh
    · intro l p hmem
      obtain ⟨m, _, hm⟩ := List.mem_map.mp hmem
      cases hm
    · rw [Usage.shared, funext hval, hU.put_get]
    · rw [List.forall₂_map_left_iff]
      exact List.forall₂_same.mpr fun l _ => hU.le_refl l
  · intro s t m s' _ hR _ hst
    rcases step_cases hst with ⟨a, sh, new, rfl, he, rfl⟩ | ⟨i, r, l, sh, l', rfl, hl, he, rfl⟩
    · obtain ⟨q, hq, hs⟩ := Option.map_eq_some_iff.mp he
      cases hs
      exact hR.env hU hq
    · exact hR.exec hC hU hl (objectStep_of_exec he)

end

end Interleave
