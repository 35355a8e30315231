import CiaServer.Interleave.Program

/-!
# A hub and its parts

Programs that ask each other for something: any number of instances of one
program, the parts, around one hub. A step of a part may ask the hub to do
something, which is then a move of the hub's environment; a step of the hub may
tell a part something, which is a move of that part's environment. Asking and
being asked is one step of the whole.

`Star.reach_hub` and `Star.reach_part`: a run of the whole is a run of the hub
and one of each part, so that whatever is known of them by themselves holds
here. `Star.rule` is the invariant rule of the whole.
-/

namespace Interleave

open Relation (ReflTransGen)

/-- One hub and any number of parts; a part is started with an `ι`. -/
structure Star (σ ℓ α ρ σ' ℓ' α' ρ' ι : Type) where
  part : Program σ ℓ α ρ
  hub : Program σ' ℓ' α' ρ'
  /-- A part when it joins. -/
  start : ι → Conf σ ℓ
  /-- What a step of the `k`-th part asks of the hub. -/
  ask : Nat → Conf σ ℓ → Conf σ ℓ → Option α'
  /-- Which part a step of the hub tells something, and what. -/
  tell : Conf σ' ℓ' → Conf σ' ℓ' → Option (Nat × α)
  /-- What the hub is asked for by its parts only. -/
  asked : α' → Bool
  /-- What a part is told by the hub only. -/
  told : α → Bool
  /-- Whether the whole still runs. -/
  up : σ' → Bool

/-- The hub and the parts. -/
structure Cluster (σ ℓ σ' ℓ' : Type) where
  parts : List (Conf σ ℓ)
  hub : Conf σ' ℓ'

/-- One move of the whole. -/
inductive StarMove (α ρ α' ρ' ι : Type) where
  | part (k : Nat) (m : Move α ρ)
  | hub (m : Move α' ρ')
  | join (i : ι)

variable {σ ℓ α ρ σ' ℓ' α' ρ' ι : Type}

/-- A move that is nobody else's to make. -/
def Move.free (own : α → Bool) : Move α ρ → Bool
  | .env a => !own a
  | .run _ _ => true

namespace Star

/-- A part is told something. If there is no such part, or it cannot take it, nothing
happens. -/
def deliver (S : Star σ ℓ α ρ σ' ℓ' α' ρ' ι) (parts : List (Conf σ ℓ)) (k : Nat) (a : α) :
    List (Conf σ ℓ) :=
  match parts[k]? with
  | none => parts
  | some c =>
    match S.part.step c (.env a) with
    | none => parts
    | some c' => parts.set k c'

/-- The whole after one move, if the move is possible. A part whose request the hub
cannot take does not step. -/
def step (S : Star σ ℓ α ρ σ' ℓ' α' ρ' ι) (s : Cluster σ ℓ σ' ℓ') :
    StarMove α ρ α' ρ' ι → Option (Cluster σ ℓ σ' ℓ')
  | .part k m =>
    match s.parts[k]? with
    | none => none
    | some c =>
      if S.up s.hub.shared && m.free S.told then
        match S.part.step c m with
        | none => none
        | some c' =>
          match S.ask k c c' with
          | none => some { s with parts := s.parts.set k c' }
          | some a =>
            match S.hub.step s.hub (.env a) with
            | none => none
            | some hub => some { parts := s.parts.set k c', hub }
      else none
  | .hub m =>
    if S.up s.hub.shared && m.free S.asked then
      match S.hub.step s.hub m with
      | none => none
      | some hub =>
        match S.tell s.hub hub with
        | none => some { s with hub }
        | some (k, a) => some { parts := S.deliver s.parts k a, hub }
    else none
  | .join i => if S.up s.hub.shared then some { s with parts := s.parts ++ [S.start i] } else none

/-- What a move of the whole can be. -/
inductive Step (S : Star σ ℓ α ρ σ' ℓ' α' ρ' ι) (s : Cluster σ ℓ σ' ℓ') :
    Cluster σ ℓ σ' ℓ' → Prop where
  /-- A part steps and asks for nothing. -/
  | part {k : Nat} {m : Move α ρ} {c c' : Conf σ ℓ} (hc : s.parts[k]? = some c)
    (hm : m.free S.told = true) (hst : S.part.step c m = some c') (ha : S.ask k c c' = none) :
    Step S s { s with parts := s.parts.set k c' }
  /-- A part steps and asks for `a`. -/
  | ask {k : Nat} {m : Move α ρ} {c c' : Conf σ ℓ} {a : α'} {hub : Conf σ' ℓ'}
    (hc : s.parts[k]? = some c) (hm : m.free S.told = true) (hst : S.part.step c m = some c')
    (ha : S.ask k c c' = some a) (hh : S.hub.step s.hub (.env a) = some hub) :
    Step S s { parts := s.parts.set k c', hub }
  /-- The hub steps, and may tell a part something. -/
  | hub {m : Move α' ρ'} {hub : Conf σ' ℓ'} {parts : List (Conf σ ℓ)}
    (hm : m.free S.asked = true) (hh : S.hub.step s.hub m = some hub)
    (hp : parts = s.parts ∨ ∃ k a c c', s.parts[k]? = some c ∧ S.tell s.hub hub = some (k, a) ∧
      S.part.step c (.env a) = some c' ∧ parts = s.parts.set k c') :
    Step S s { parts, hub }
  /-- A part joins. -/
  | join (i : ι) : Step S s { s with parts := s.parts ++ [S.start i] }

theorem deliver_cases (S : Star σ ℓ α ρ σ' ℓ' α' ρ' ι) (parts : List (Conf σ ℓ)) (k : Nat) (a : α) :
    S.deliver parts k a = parts ∨ ∃ c c', parts[k]? = some c ∧ S.part.step c (.env a) = some c' ∧
      S.deliver parts k a = parts.set k c' := by
  unfold deliver
  split
  · exact Or.inl rfl
  · next c hc =>
    split
    · exact Or.inl rfl
    · next c' hst => exact Or.inr ⟨c, c', hc, hst, rfl⟩

theorem step_cases {S : Star σ ℓ α ρ σ' ℓ' α' ρ' ι} {s s' : Cluster σ ℓ σ' ℓ'}
    {m : StarMove α ρ α' ρ' ι} (h : S.step s m = some s') : S.Step s s' := by
  cases m with
  | part k m =>
    simp only [step] at h
    cases hc : s.parts[k]? with
    | none =>
      rw [hc] at h
      cases h
    | some c =>
      simp only [hc] at h
      split at h
      · next hm =>
        have hfree := (Bool.and_eq_true_iff.mp hm).2
        cases hst : S.part.step c m with
        | none =>
          rw [hst] at h
          cases h
        | some c' =>
          simp only [hst] at h
          cases ha : S.ask k c c' with
          | none =>
            rw [ha] at h
            cases h
            exact .part hc hfree hst ha
          | some a =>
            simp only [ha] at h
            cases hh : S.hub.step s.hub (.env a) with
            | none =>
              rw [hh] at h
              cases h
            | some hub =>
              rw [hh] at h
              cases h
              exact .ask hc hfree hst ha hh
      · cases h
  | hub m =>
    simp only [step] at h
    split at h
    · next hm =>
      have hfree := (Bool.and_eq_true_iff.mp hm).2
      cases hh : S.hub.step s.hub m with
      | none =>
        rw [hh] at h
        cases h
      | some hub =>
        simp only [hh] at h
        cases ht : S.tell s.hub hub with
        | none =>
          rw [ht] at h
          cases h
          exact .hub hfree hh (Or.inl rfl)
        | some ka =>
          simp only [ht] at h
          cases h
          refine .hub hfree hh ?_
          rcases S.deliver_cases s.parts ka.1 ka.2 with hd | ⟨c, c', hc, hst, hd⟩
          · exact Or.inl hd
          · exact Or.inr ⟨ka.1, ka.2, c, c', hc, ht, hst, hd⟩
    · cases h
  | join i =>
    simp only [step] at h
    split at h
    · cases h
      exact .join i
    · cases h

/-- What a move of a part does to the hub. -/
theorem hub_of_part {S : Star σ ℓ α ρ σ' ℓ' α' ρ' ι} {s s' : Cluster σ ℓ σ' ℓ'} {k : Nat}
    {m : Move α ρ} (h : S.step s (.part k m) = some s') :
    s'.hub = s.hub ∨ ∃ a, S.hub.step s.hub (.env a) = some s'.hub := by
  simp only [step] at h
  split at h
  · cases h
  · split at h
    · split at h
      · cases h
      · split at h
        · cases h
          exact Or.inl rfl
        · next a _ =>
          split at h
          · cases h
          · next hub hh =>
            cases h
            exact Or.inr ⟨a, hh⟩
    · cases h

/-- What a move of the hub does to it. -/
theorem hub_of_hub {S : Star σ ℓ α ρ σ' ℓ' α' ρ' ι} {s s' : Cluster σ ℓ σ' ℓ'} {m : Move α' ρ'}
    (h : S.step s (.hub m) = some s') : S.hub.step s.hub m = some s'.hub := by
  simp only [step] at h
  split at h
  · split at h
    · cases h
    · next hub hh =>
      split at h <;> cases h <;> exact hh
  · cases h

theorem hub_of_join {S : Star σ ℓ α ρ σ' ℓ' α' ρ' ι} {s s' : Cluster σ ℓ σ' ℓ'} {i : ι}
    (h : S.step s (.join i) = some s') : s'.hub = s.hub := by
  simp only [step] at h
  split at h <;> cases h
  rfl

theorem length_deliver (S : Star σ ℓ α ρ σ' ℓ' α' ρ' ι) (parts : List (Conf σ ℓ)) (k : Nat) (a : α) :
    (S.deliver parts k a).length = parts.length := by
  rcases S.deliver_cases parts k a with hd | ⟨c, c', _, _, hd⟩
  · rw [hd]
  · rw [hd, List.length_set]

theorem length_of_part {S : Star σ ℓ α ρ σ' ℓ' α' ρ' ι} {s s' : Cluster σ ℓ σ' ℓ'} {k : Nat}
    {m : Move α ρ} (h : S.step s (.part k m) = some s') : s'.parts.length = s.parts.length := by
  simp only [step] at h
  split at h
  · cases h
  · split at h
    · split at h
      · cases h
      · split at h
        · cases h
          exact List.length_set
        · split at h <;> cases h
          exact List.length_set
    · cases h

theorem length_of_hub {S : Star σ ℓ α ρ σ' ℓ' α' ρ' ι} {s s' : Cluster σ ℓ σ' ℓ'} {m : Move α' ρ'}
    (h : S.step s (.hub m) = some s') : s'.parts.length = s.parts.length := by
  simp only [step] at h
  split at h
  · split at h
    · cases h
    · split at h <;> cases h
      · rfl
      · exact S.length_deliver _ _ _
  · cases h

theorem length_of_join {S : Star σ ℓ α ρ σ' ℓ' α' ρ' ι} {s s' : Cluster σ ℓ σ' ℓ'} {i : ι}
    (h : S.step s (.join i) = some s') : s'.parts.length = s.parts.length + 1 := by
  simp only [step] at h
  split at h <;> cases h
  exact List.length_append

/-- What the whole can come to, with the hub at `h₀` and no part to begin with. -/
def Reachable (S : Star σ ℓ α ρ σ' ℓ' α' ρ' ι) (h₀ : Conf σ' ℓ') (s : Cluster σ ℓ σ' ℓ') : Prop :=
  ∃ ms, runs S.step { parts := [], hub := h₀ } ms = some s

/-- Where a list of moves leads; the start, if it is not possible. -/
def after (S : Star σ ℓ α ρ σ' ℓ' α' ρ' ι) (h₀ : Conf σ' ℓ') (ms : List (StarMove α ρ α' ρ' ι)) :
    Cluster σ ℓ σ' ℓ' :=
  (runs S.step { parts := [], hub := h₀ } ms).getD { parts := [], hub := h₀ }

variable {S : Star σ ℓ α ρ σ' ℓ' α' ρ' ι} {h₀ : Conf σ' ℓ'} {s : Cluster σ ℓ σ' ℓ'}

theorem reachable_after {ms : List (StarMove α ρ α' ρ' ι)}
    (h : (runs S.step { parts := [], hub := h₀ } ms).isSome = true) :
    S.Reachable h₀ (S.after h₀ ms) := by
  obtain ⟨s, hs⟩ := Option.isSome_iff_exists.mp h
  refine ⟨ms, ?_⟩
  rw [after, hs]
  rfl

theorem Reachable.step (h : S.Reachable h₀ s) {m : StarMove α ρ α' ρ' ι} {s' : Cluster σ ℓ σ' ℓ'}
    (hst : S.step s m = some s') : S.Reachable h₀ s' := by
  obtain ⟨ms, h⟩ := h
  refine ⟨ms ++ [m], ?_⟩
  rw [runs_append, h]
  exact runs_cons.mpr ⟨s', hst, rfl⟩

/-- Each part by itself, and the hub by itself. -/
def Apart (S : Star σ ℓ α ρ σ' ℓ' α' ρ' ι) (h₀ : Conf σ' ℓ') (s : Cluster σ ℓ σ' ℓ') : Prop :=
  S.hub.Reach (fun _ _ => True) h₀ s.hub ∧
    ∀ (k : Nat) (c : Conf σ ℓ), s.parts[k]? = some c →
      ∃ i, S.part.Reach (fun _ _ => True) (S.start i) c

theorem Step.apart {s' : Cluster σ ℓ σ' ℓ'} (h : S.Step s s') (hs : S.Apart h₀ s) :
    S.Apart h₀ s' := by
  -- a part that steps is still reached from where it started
  have hset : ∀ {k : Nat} {m : Move α ρ} {c c' : Conf σ ℓ}, s.parts[k]? = some c →
      S.part.step c m = some c' → ∀ (j : Nat) (b : Conf σ ℓ), (s.parts.set k c')[j]? = some b →
      ∃ i, S.part.Reach (fun _ _ => True) (S.start i) b := by
    intro k m c c' hc hst j b hb
    rcases getElem?_set_cases hc hb with ⟨_, rfl⟩ | ⟨_, hb⟩
    · obtain ⟨i, hi⟩ := hs.2 k c hc
      exact ⟨i, hi.tail ⟨m, trivial, hst⟩⟩
    · exact hs.2 j b hb
  cases h with
  | part hc _ hst _ => exact ⟨hs.1, hset hc hst⟩
  | ask hc _ hst _ hh => exact ⟨hs.1.tail ⟨_, trivial, hh⟩, hset hc hst⟩
  | hub _ hh hp =>
    refine ⟨hs.1.tail ⟨_, trivial, hh⟩, ?_⟩
    rcases hp with rfl | ⟨k, a, c, c', hc, _, hst, rfl⟩
    · exact hs.2
    · exact hset hc hst
  | join i =>
    refine ⟨hs.1, ?_⟩
    intro k c hc
    rcases getElem?_append_cases hc with hc | ⟨_, rfl⟩
    · exact hs.2 k c hc
    · exact ⟨i, ReflTransGen.refl⟩

/-- The invariant rule of the whole: a step may use what is known of the hub and of
each part by itself. -/
theorem rule {I : Cluster σ ℓ σ' ℓ' → Prop} (hstart : I { parts := [], hub := h₀ })
    (hstep : ∀ s s', S.Apart h₀ s → I s → S.Step s s' → I s') (h : S.Reachable h₀ s) : I s := by
  obtain ⟨ms, h⟩ := h
  refine (runs_rule (fun s => S.Apart h₀ s ∧ I s) (fun _ => True) ?_ ?_ (fun _ _ => trivial) h).2
  · intro s m s' hs _ hst
    have hst' := step_cases hst
    exact ⟨hst'.apart hs.1, hstep s s' hs.1 hs.2 hst'⟩
  · exact ⟨⟨ReflTransGen.refl, fun _ _ hc => by cases hc⟩, hstart⟩

theorem apart (h : S.Reachable h₀ s) : S.Apart h₀ s :=
  rule (I := S.Apart h₀) ⟨ReflTransGen.refl, fun _ _ hc => by cases hc⟩
    (fun _ _ hs _ hst => hst.apart hs) h

/-- A run of the whole is a run of the hub. -/
theorem reach_hub (h : S.Reachable h₀ s) : S.hub.Reach (fun _ _ => True) h₀ s.hub := (apart h).1

/-- A run of the whole is a run of each part. -/
theorem reach_part (h : S.Reachable h₀ s) {k : Nat} {c : Conf σ ℓ} (hc : s.parts[k]? = some c) :
    ∃ i, S.part.Reach (fun _ _ => True) (S.start i) c :=
  (apart h).2 k c hc

end Star

end Interleave
