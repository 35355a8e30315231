import CiaServer.Net.BufferInv

/-!
# Can the io threads wait for each other?

A client has as many buffers as there are io threads, but it can have more
`do_write`s unfinished than that: the next request is read before the one
before it has been answered, and a send stays pending while the peer does not
read. An io thread that finds the pool empty then waits in `Take` for a
completion handler, which needs an io thread. `noDeadlock_fails` runs two io
threads into that with four pipelined logins of one client.

`noDeadlock_of_leavesRoom`: it cannot happen in a run in which every `do_write`
that starts while all other io threads are in `Take` finds fewer than `T`
unfinished ones on its client.
The invariant (`SomeoneRuns`) is an io thread that is not in `Take`, or one in
`Take` on a client with at most `T` unfinished `do_write`s; such a client has a
buffer left for it.
-/

namespace CiaServer.Net.Writer

open Wire Interleave

/-! ## Waiting -/

/-- The client whose `Take` a thread is in. -/
def Pc.waiting : Pc → Option Nat
  | .take c _ => some c
  | _ => none

/-- The client of the buffer a thread holds. -/
def Pc.holding : Pc → Option Nat
  | .fill c _ _ => some c
  | .send c _ _ => some c
  | .put c _ _ => some c
  | _ => none

/-- `do_write`s on client `c` that have started and not given their buffer back. -/
def unfinished (cs : List Client) (ts : List Pc) (c : Nat) : Nat :=
  match cs[c]? with
  | none => 0
  | some cl =>
    tokens Pc.waiting c ts + tokens Pc.holding c ts + cl.sending.length + cl.completed.length

/-- A thread that is in `Take` of an empty queue. -/
def blocked (cs : List Client) : Pc → Bool
  | .take c _ =>
    match cs[c]? with
    | none => true
    | some cl => cl.pool.isEmpty
  | _ => false

/-- All io threads are blocked. -/
def Deadlocked (T : Nat) (s : Conf (List Client) Pc) : Prop :=
  ∀ l ∈ s.threads.take T, blocked s.shared l = true

instance (T : Nat) (s : Conf (List Client) Pc) : Decidable (Deadlocked T s) :=
  inferInstanceAs (Decidable (∀ _ ∈ _, _))

/-- Every io thread other than `i` is in `Take`. -/
def othersWait (T : Nat) (ts : List Pc) (i : Nat) : Bool :=
  (List.range T).all fun j => j == i || (ts[j]?).all fun l => l.waiting.isSome

/-- A `do_write` that starts while every other io thread is in `Take` finds
fewer than `T` unfinished ones on its client. -/
def leavesRoom (T : Nat) (s : Conf (List Client) Pc) : Move Event Choice → Bool
  | .run i (.write c _) =>
    !othersWait T s.threads i || decide (unfinished s.shared s.threads c < T)
  | _ => true

/-- One io thread at least is outside `Take`, or has a buffer to take. -/
def SomeoneRuns (T : Nat) (cs : List Client) (ts : List Pc) : Prop :=
  ∃ j l, j < T ∧ ts[j]? = some l ∧ ∀ c, l.waiting = some c → unfinished cs ts c ≤ T

/-! ## What is unfinished -/

variable {T : Nat}

/-- A step inside a client finishes a `do_write` or leaves as many. -/
theorem ClientStep.unfinished_le {c i : Nat} {cs : List Client} {ts : List Pc} {cl cl' : Client}
    {l l' : Pc} (h : ClientStep c cl l cl' l') (hcl : cs[c]? = some cl) (hl : ts[i]? = some l)
    (d : Nat) : unfinished (cs.set c cl') (ts.set i l') d ≤ unfinished cs ts d := by
  have hw := tokens_set Pc.waiting d hl l'
  have hh := tokens_set Pc.holding d hl l'
  by_cases hd : d = c
  · subst hd
    unfold unfinished
    rw [List.getElem?_set_self (List.getElem?_eq_some_iff.mp hcl).1, hcl]
    cases h with
    | take hp =>
      simp only [tok, Pc.waiting, Pc.holding, ↓reduceIte, reduceCtorEq] at hw hh ⊢
      omega
    | fill =>
      simp only [Client.fill, tok, Pc.waiting, Pc.holding, reduceCtorEq, ↓reduceIte] at hw hh ⊢
      omega
    | send hb =>
      simp only [tok, Pc.waiting, Pc.holding, reduceCtorEq, ↓reduceIte, List.length_append,
        List.length_singleton] at hw hh ⊢
      omega
    | handle hj =>
      have hlen := List.length_eraseIdx_of_lt (List.getElem?_eq_some_iff.mp hj).1
      have hpos := (List.getElem?_eq_some_iff.mp hj).1
      simp only [tok, Pc.waiting, Pc.holding, reduceCtorEq, ↓reduceIte] at hw hh ⊢
      omega
    | @put b ec =>
      cases ec <;>
        simp only [Client.put, tok, Pc.waiting, Pc.holding, reduceCtorEq, ↓reduceIte,
          Bool.false_eq_true] at hw hh ⊢ <;>
        omega
    | stop =>
      simp only [tok, Pc.waiting, Pc.holding, reduceCtorEq, ↓reduceIte] at hw hh ⊢
      omega
  · -- the thread is busy with another client
    have hw₁ : ∀ {m : Pc}, m.client ≠ some d → m.waiting ≠ some d := by
      intro m hm
      cases m <;> first | exact hm | exact (Option.some_ne_none d).symm
    have hh₁ : ∀ {m : Pc}, m.client ≠ some d → m.holding ≠ some d := by
      intro m hm
      cases m <;> first | exact hm | exact (Option.some_ne_none d).symm
    obtain ⟨h₁, h₂⟩ := h.client hd
    rw [tok_of_ne (hw₁ h₁), tok_of_ne (hw₁ h₂)] at hw
    rw [tok_of_ne (hh₁ h₁), tok_of_ne (hh₁ h₂)] at hh
    unfold unfinished
    rw [List.getElem?_set_ne (fun he => hd he.symm)]
    split <;> omega

/-- A thread that enters `do_write` on `c` adds one to `c` alone. -/
theorem unfinished_set_take (cs : List Client) {ts : List Pc} {i : Nat} (c d : Nat)
    (chMsg : Outgoing) (hl : ts[i]? = some .ready) : unfinished cs (ts.set i (.take c chMsg)) d
      ≤ unfinished cs ts d + if c = d then 1 else 0 := by
  have hw := tokens_set Pc.waiting d hl (.take c chMsg)
  have hh := tokens_set Pc.holding d hl (.take c chMsg)
  simp only [tok, Pc.waiting, Pc.holding, reduceCtorEq, ↓reduceIte, Option.some.injEq] at hw hh
  unfold unfinished
  split <;> omega

theorem ClientEvent.unfinished_eq {cs : List Client} {c : Nat} {cl cl' : Client}
    (h : ClientEvent cl cl') (hcl : cs[c]? = some cl) (ts : List Pc) (d : Nat) :
    unfinished (cs.set c cl') ts d = unfinished cs ts d := by
  by_cases hd : d = c
  · subst hd
    unfold unfinished
    rw [List.getElem?_set_self (List.getElem?_eq_some_iff.mp hcl).1, hcl]
    cases h with
    | transmit hs _ _ _ _ =>
      simp only [hs, List.length_append, List.length_cons, List.length_nil]
      omega
    | abort hs _ =>
      simp only [hs, List.length_append, List.length_cons, List.length_nil]
      omega
    | close => rfl
  · unfold unfinished
    rw [List.getElem?_set_ne (fun he => hd he.symm)]

/-- A thread holds a buffer of `c`, or none: counted by client or by buffer. -/
theorem tokens_held (c : Nat) (ts : List Pc) :
    tokens (fun l => (Pc.held c l).bind fun _ => some ()) () ts = tokens Pc.holding c ts := by
  have htok : ∀ l : Pc, tok (fun l => (Pc.held c l).bind fun _ => some ()) () l
      = tok Pc.holding c l := by
    intro l
    by_cases hc : l.client = some c
    · rw [tok, Pc.held_of_eq hc, tok]
      cases l <;> simp only [Pc.client, Option.some.injEq, reduceCtorEq] at hc <;>
        simp [Pc.buffer, Pc.holding, hc]
    · rw [tok_held_none (Pc.held_of_ne hc), tok_of_ne]
      cases l <;> first | exact hc | exact nofun
  unfold tokens
  exact congrArg List.sum (List.map_congr_left fun l _ => htok l)

/-- A client's buffers are in its pool or with its unfinished `do_write`s. -/
theorem buffers_counted {s : Conf (List Client) Pc} (h : Reachable T s) {c : Nat} {cl : Client}
    (hcl : s.shared[c]? = some cl) :
    cl.pool.length + unfinished s.shared s.threads c = T + tokens Pc.waiting c s.threads := by
  have hp := placesInv (fun _ => some ()) () h c cl hcl
  unfold places at hp
  rw [tokens_held, tokens_const, tokens_const, tokens_const, tokens_const, List.length_range] at hp
  unfold unfinished
  rw [hcl]
  dsimp only
  omega

/-! ## Somebody runs -/

/-- Nothing a thread does inside a client takes the last io thread away. -/
theorem SomeoneRuns.clientStep {c i : Nat} {cs : List Client} {ts : List Pc} {cl cl' : Client}
    {l l' : Pc} (hs : SomeoneRuns T cs ts) (h : ClientStep c cl l cl' l') (hcl : cs[c]? = some cl)
    (hl : ts[i]? = some l) : SomeoneRuns T (cs.set c cl') (ts.set i l') := by
  obtain ⟨j, m, hj, hm, hrun⟩ := hs
  by_cases hij : i = j
  · subst hij
    -- after a step of its own the thread is not in `Take`
    have hout : l'.waiting = none := by
      cases h with
      | take _ => rfl
      | fill => rfl
      | send _ => rfl
      | handle _ => rfl
      | @put b ec => cases ec <;> rfl
      | stop => rfl
    refine ⟨i, l', hj, List.getElem?_set_self (List.getElem?_eq_some_iff.mp hl).1, ?_⟩
    intro d hd
    rw [hout] at hd
    cases hd
  · refine ⟨j, m, hj, by rw [List.getElem?_set_ne hij]; exact hm, ?_⟩
    intro d hd
    exact Nat.le_trans (h.unfinished_le hcl hl d) (hrun d hd)

/-- Entering `do_write` where there is room leaves an io thread that runs. -/
theorem SomeoneRuns.write {c i : Nat} {cs : List Client} {ts : List Pc} {chMsg : Outgoing}
    (hs : SomeoneRuns T cs ts) (hl : ts[i]? = some .ready)
    (hok : leavesRoom T ⟨cs, ts⟩ (.run i (.write c chMsg)) = true) :
    SomeoneRuns T cs (ts.set i (.take c chMsg)) := by
  simp only [leavesRoom, Bool.or_eq_true, Bool.not_eq_true', decide_eq_true_eq] at hok
  rcases hok with hothers | hroom
  · -- another io thread is outside `Take`
    unfold othersWait at hothers
    rw [List.all_eq_false] at hothers
    obtain ⟨j, hj, hout⟩ := hothers
    simp only [Bool.or_eq_true, beq_iff_eq, not_or] at hout
    obtain ⟨hji, hout⟩ := hout
    cases hm : ts[j]? with
    | none =>
      rw [hm] at hout
      exact absurd rfl hout
    | some m =>
      rw [hm] at hout
      refine ⟨j, m, List.mem_range.mp hj, ?_, ?_⟩
      · rw [List.getElem?_set_ne (fun he => hji he.symm)]
        exact hm
      · intro d hd
        rw [Option.all_some, hd] at hout
        exact absurd rfl hout
  · -- everybody else is in `Take`, but there is room on `c` for one more
    obtain ⟨j, m, hj, hm, hrun⟩ := hs
    by_cases hij : i = j
    · subst hij
      refine ⟨i, .take c chMsg, hj, List.getElem?_set_self (List.getElem?_eq_some_iff.mp hl).1, ?_⟩
      intro d hd
      cases hd
      have := unfinished_set_take cs c c chMsg hl
      rw [if_pos rfl] at this
      omega
    · refine ⟨j, m, hj, by rw [List.getElem?_set_ne hij]; exact hm, ?_⟩
      intro d hd
      have hle := hrun d hd
      have := unfinished_set_take cs c d chMsg hl
      by_cases hcd : c = d
      · subst hcd
        rw [if_pos rfl] at this
        omega
      · rw [if_neg hcd] at this
        omega

theorem SomeoneRuns.env {n : Nat} {cs cs' : List Client} {ts new : List Pc} {e : Event}
    (hs : SomeoneRuns T cs ts) (hk : Known cs ts) (he : env T cs n e = some (cs', new)) :
    SomeoneRuns T cs' (ts ++ new) := by
  obtain ⟨j, m, hj, hm, hrun⟩ := hs
  have hlen := (List.getElem?_eq_some_iff.mp hm).1
  refine ⟨j, m, hj, by rw [List.getElem?_append_left hlen]; exact hm, ?_⟩
  intro d hd
  have hle := hrun d hd
  rcases env_cases he with ⟨datas, _, rfl, rfl⟩ | ⟨rfl, rfl⟩ | ⟨c, cl, cl', hcl, rfl, rfl, hev⟩
  -- a new client is not the one the thread is in `Take` on
  · have hd' : m.client = some d := by cases m <;> first | exact hd | cases hd
    have hlt := hk m (List.mem_of_getElem? hm) d hd'
    rw [List.append_nil]
    unfold unfinished at hle ⊢
    rw [List.getElem?_append_left hlt]
    exact hle
  · unfold unfinished at hle ⊢
    rw [tokens_append, tokens_append]
    exact hle
  · rw [List.append_nil, hev.unfinished_eq hcl]
    exact hle

theorem someoneRuns (hT : 0 < T) {s : Conf (List Client) Pc}
    (h : (writer T).Reach (fun s m => leavesRoom T s m = true) (start T) s) :
    SomeoneRuns T s.shared s.threads := by
  refine Program.Reach.rule (I := SomeoneRuns T) ?_ ?_ ?_ h
  · refine ⟨0, .ready, hT, ?_, nofun⟩
    show (List.replicate T Pc.ready)[0]? = _
    rw [List.getElem?_replicate, if_pos hT]
  · intro cs ts e cs' new hR hs _ he
    have hk := known (Program.Reach.mono (fun _ _ _ => trivial) hR)
    exact SomeoneRuns.env (n := ts.length) hs hk he
  · intro cs ts i l r cs' l' _ hs hok hl he
    rcases exec_cases (i := i) he with
      ⟨c, chMsg, rfl, rfl, rfl, _, rfl⟩ | ⟨c, cl, cl', hcl, rfl, hstep⟩
    · exact hs.write hl hok
    · exact hs.clientStep hstep hcl hl

/-- **The io threads do not all wait for each other**, in every run in which a
`do_write` that starts while the other io threads are in `Take` finds fewer
than `T` unfinished ones on its client. -/
theorem noDeadlock_of_leavesRoom (hT : 0 < T) {s : Conf (List Client) Pc}
    (h : (writer T).Reach (fun s m => leavesRoom T s m = true) (start T) s) :
    ¬Deadlocked T s := by
  intro hdead
  obtain ⟨j, l, hj, hl, hrun⟩ := someoneRuns hT h
  have hmem : l ∈ s.threads.take T := by
    refine List.mem_iff_getElem?.mpr ⟨j, ?_⟩
    rw [List.getElem?_take_of_lt hj]
    exact hl
  have hb := hdead l hmem
  cases l with
  | take c chMsg =>
    have hR : Reachable T s := Program.Reach.mono (fun _ _ _ => trivial) h
    have hc : c < s.shared.length := known hR _ (List.mem_of_getElem? hl) c rfl
    have hcl : s.shared[c]? = some s.shared[c] := List.getElem?_eq_getElem hc
    have hpool : (s.shared[c]).pool = [] := by
      simp only [blocked, hcl] at hb
      exact List.isEmpty_iff.mp hb
    -- the waiting thread's own `do_write` is one too many
    have hwait : 1 ≤ tokens Pc.waiting c s.threads := one_le_tokens (List.mem_of_getElem? hl) rfl
    have hcount := buffers_counted hR hcl
    have := hrun c rfl
    rw [hpool, List.length_nil] at hcount
    omega
  | ready => cases hb
  | fill c chMsg b => cases hb
  | send c chMsg b => cases hb
  | put c b ec => cases hb
  | stop c => cases hb

/-! ## Runs -/

/-- One login is answered on each of two io threads, and the first send is done. -/
theorem noDeadlock_twoLogins :
    ¬Deadlocked 2 ((writer 2).after (leavesRoom 2) (start 2)
      (.env (.accept [zeroed, zeroed]) :: answerLogin 0 0 ++ answerLogin 1 0 ++
        [.env (.transmit 0 16), .run 0 (.handle 0 0), .run 0 .go])) :=
  noDeadlock_of_leavesRoom (by decide) (Program.reach_after (by decide +kernel))

/-- Four logins of one client, and no answer is read by it. -/
def pipelinedLogins : List (Move Event Choice) :=
  .env (.accept [zeroed, zeroed]) :: answerLogin 0 0 ++ answerLogin 1 0 ++
    [.run 0 (.write 0 loginAnswer), .run 1 (.write 0 loginAnswer)]

/-- **The io threads can all wait for each other.** -/
theorem noDeadlock_fails : ¬∀ T, 0 < T → ∀ s, Reachable T s → ¬Deadlocked T s := by
  intro h
  have hR : Reachable 2 ((writer 2).after (fun _ _ => true) (start 2) pipelinedLogins) :=
    Program.Reach.mono (fun _ _ _ => trivial) (Program.reach_after (by decide +kernel))
  exact h 2 (by decide) _ hR (by decide +kernel)

end CiaServer.Net.Writer
