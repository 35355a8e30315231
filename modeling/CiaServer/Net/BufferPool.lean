import CiaServer.Net.BufferInv

/-!
# The buffer pool of a client (`cia_client`, `blocking_queue.hpp`)

The senders of `Writer` with every restriction taken away that the buffers do
not depend on: a client has any number of buffers, any thread runs completion
handlers, and sends complete in any order, with success or an error, before and
after the connection is closed. A run of the server is one of these
(`anyReachable_of_reachable`).

`pool_conserved`: each buffer is in exactly one place, and the buffer of a send
keeps what `do_write` was called with until its handler puts it back.
-/

namespace CiaServer.Net.Writer

open Wire Interleave

/-! ## Sends that complete in any order -/

/-- What the peers and the operating system may do. -/
inductive Outside where
  | connect (datas : List Buffer)
  | spawn
  /-- The send at place `j` of client `c` completes after `k` bytes. -/
  | sent (c j k : Nat)
  /-- It completes with an error. -/
  | failed (c j : Nat)
  | close (c : Nat)

/-- The handler of a send is queued. -/
def Client.sent (cl : Client) (j k : Nat) : Option Client :=
  match cl.sending[j]? with
  | none => none
  | some sd =>
    match cl.buffers[sd.buffer]? with
    | none => none
    | some m =>
      some { cl with
        sending := cl.sending.eraseIdx j
        completed := cl.completed ++ [(sd.buffer, false)]
        wire := cl.wire ++ slice m.data.1 0 k
        performed := cl.performed ++ [(sd.chMsg, k)] }

/-- The handler of a failed send is queued. -/
def Client.failed (cl : Client) (j : Nat) : Option Client :=
  match cl.sending[j]? with
  | none => none
  | some sd =>
    some { cl with
      sending := cl.sending.eraseIdx j, completed := cl.completed ++ [(sd.buffer, true)] }

def anyEnv (cs : List Client) (_ : Nat) : Outside → Option (List Client × List Pc)
  | .connect datas => some (cs ++ [Client.new datas], [])
  | .spawn => some (cs, [.ready])
  | .sent c j k => (update cs c fun cl => cl.sent j k).map fun cs' => (cs', [])
  | .failed c j => (update cs c fun cl => cl.failed j).map fun cs' => (cs', [])
  | .close c => (update cs c fun cl => some { cl with closed := true }).map fun cs' => (cs', [])

/-- Threads that call `do_write` and run completion handlers, all of them. -/
def anySenders : Program (List Client) Pc Outside Choice where
  env := anyEnv
  exec cs i := exec (i + 1) cs i

/-- What any threads and any clients can come to. -/
def AnyReachable (s : Conf (List Client) Pc) : Prop :=
  ∃ n, anySenders.Reach (fun _ _ => True) (start n) s

/-- What happens to a client without a thread: a send completes, or the
connection is closed. -/
inductive Completion (cl : Client) : Client → Prop where
  | send {j : Nat} {sd : Send} (ec : Bool) (wire : Bytes) (performed : List (Outgoing × Nat))
    (h : cl.sending[j]? = some sd) :
    Completion cl
      { cl with
        sending := cl.sending.eraseIdx j, completed := cl.completed ++ [(sd.buffer, ec)]
        wire, performed }
  | close : Completion cl { cl with closed := true }

theorem senders_any : Senders anySenders (fun _ => True) Completion where
  exec h := exec_cases h
  env {n cs cs' e ls} h := by
    cases e with
    | connect datas =>
      cases h
      exact Or.inl ⟨datas, trivial, rfl, rfl⟩
    | spawn =>
      cases h
      exact Or.inr (Or.inl ⟨rfl, rfl⟩)
    | sent c j k =>
      obtain ⟨cs₁, hu, hs⟩ := Option.map_eq_some_iff.mp h
      obtain ⟨cl, cl', hcl, hf, rfl⟩ := update_eq_some hu
      unfold Client.sent at hf
      split at hf
      · cases hf
      · next sd hsd =>
        split at hf
        · cases hf
        · cases hf
          cases hs
          exact Or.inr (Or.inr ⟨c, cl, _, hcl, rfl, rfl, .send false _ _ hsd⟩)
    | failed c j =>
      obtain ⟨cs₁, hu, hs⟩ := Option.map_eq_some_iff.mp h
      obtain ⟨cl, cl', hcl, hf, rfl⟩ := update_eq_some hu
      unfold Client.failed at hf
      split at hf
      · cases hf
      · next sd hsd =>
        cases hf
        cases hs
        exact Or.inr (Or.inr ⟨c, cl, _, hcl, rfl, rfl, .send true _ _ hsd⟩)
    | close c =>
      obtain ⟨cs₁, hu, hs⟩ := Option.map_eq_some_iff.mp h
      obtain ⟨cl, cl', hcl, hf, rfl⟩ := update_eq_some hu
      cases hf
      cases hs
      exact Or.inr (Or.inr ⟨c, cl, _, hcl, rfl, rfl, .close⟩)

/-! ## The server is among them -/

/-- A thread that may run handlers can do no less. -/
theorem exec_any {T i : Nat} {cs : List Client} {l : Pc} {r : Choice} {p : List Client × Pc}
    (h : exec T cs i l r = some p) : exec (i + 1) cs i l r = some p := by
  unfold exec at h ⊢
  split at h
  · exact h
  · split at h
    · cases h
    · split at h
      · rw [if_pos (Nat.lt_succ_self i)]
        exact h
      · cases h
  all_goals exact h

theorem update_of_some {cs : List Client} {c : Nat} {cl cl' : Client}
    {f : Client → Option Client} (hcl : cs[c]? = some cl) (hf : f cl = some cl') :
    update cs c f = some (cs.set c cl') := by
  rw [update, hcl]
  dsimp only
  rw [hf]
  rfl

/-- What happens to a client of the server may happen to any client. -/
theorem env_any {T n : Nat} {cs : List Client} {e : Event} {p : List Client × List Pc}
    (h : env T cs n e = some p) : ∃ e', anyEnv cs n e' = some p := by
  cases e with
  | accept datas =>
    simp only [env] at h
    split at h
    · exact ⟨.connect datas, h⟩
    · cases h
  | spawn => exact ⟨.spawn, h⟩
  | transmit c k =>
    obtain ⟨cs₁, hu, hs⟩ := Option.map_eq_some_iff.mp h
    obtain ⟨cl, cl', hcl, hf, rfl⟩ := update_eq_some hu
    have hsent : cl.sent 0 k = some cl' := by
      unfold Client.transmit at hf
      split at hf
      · cases hf
      · next sd sds hsend =>
        split at hf
        · cases hf
        · next m hm =>
          split at hf
          · cases hf
            simp only [Client.sent, hsend, hm, List.getElem?_cons_zero, List.eraseIdx_cons_zero]
          · cases hf
    refine ⟨.sent c 0 k, ?_⟩
    rw [anyEnv, update_of_some hcl hsent]
    exact congrArg some hs
  | abort c =>
    obtain ⟨cs₁, hu, hs⟩ := Option.map_eq_some_iff.mp h
    obtain ⟨cl, cl', hcl, hf, rfl⟩ := update_eq_some hu
    have hfailed : cl.failed 0 = some cl' := by
      unfold Client.abort at hf
      split at hf
      · cases hf
      · next sd sds hsend =>
        split at hf
        · cases hf
          simp only [Client.failed, hsend, List.getElem?_cons_zero, List.eraseIdx_cons_zero]
        · cases hf
    refine ⟨.failed c 0, ?_⟩
    rw [anyEnv, update_of_some hcl hfailed]
    exact congrArg some hs
  | close c => exact ⟨.close c, h⟩

/-- What the server comes to, any senders may come to. -/
theorem anyReachable_of_reachable {T : Nat} {s : Conf (List Client) Pc} (h : Reachable T s) :
    AnyReachable s := by
  refine ⟨T, Program.Reach.of_step ?_ h⟩
  rintro a b ⟨m, _, hm⟩
  rcases Program.step_cases hm with ⟨e, cs, ls, rfl, he, rfl⟩ | ⟨i, r, l, cs, l', rfl, hl, he, rfl⟩
  · obtain ⟨e', he'⟩ := env_any he
    refine ⟨.env e', trivial, ?_⟩
    show (anyEnv a.shared a.threads.length e').map _ = _
    rw [he']
    rfl
  · refine ⟨.run i r, trivial, ?_⟩
    have he' : anySenders.exec a.shared i l r = some (cs, l') := exec_any he
    simp only [Program.step, hl, he', Option.map_some]

/-! ## One place for each buffer -/

/-- The buffer of client `c` that a thread holds in `do_write`, between `Take` and
`async_send`. -/
def Pc.writing (c : Nat) : Pc → Option Nat
  | .fill d _ b => if d = c then some b else none
  | .send d _ b => if d = c then some b else none
  | _ => none

/-- The buffer of client `c` that a completion handler is about to put back. -/
def Pc.returning (c : Nat) : Pc → Option Nat
  | .put d b _ => if d = c then some b else none
  | _ => none

/-- The outstanding sends of client `c` that own buffer `b`: not performed, or
performed with the handler still queued or still to put the buffer back. -/
def owners (c b : Nat) (cl : Client) (ts : List Pc) : Nat :=
  tokens (fun sd => some sd.buffer) b cl.sending + tokens (fun p => some p.1) b cl.completed
    + tokens (Pc.returning c) b ts

/-- A thread holds a buffer in `do_write` or in a handler. -/
theorem tok_held (c b : Nat) (l : Pc) : tok (fun l => (Pc.held c l).bind some) b l
    = tok (Pc.writing c) b l + tok (Pc.returning c) b l := by
  unfold tok Pc.held
  cases l with
  | ready => rfl
  | take d _ => by_cases hd : d = c <;> simp [Pc.client, Pc.buffer, Pc.writing, Pc.returning, hd]
  | fill d _ _ => by_cases hd : d = c <;> simp [Pc.client, Pc.buffer, Pc.writing, Pc.returning, hd]
  | send d _ _ => by_cases hd : d = c <;> simp [Pc.client, Pc.buffer, Pc.writing, Pc.returning, hd]
  | put d _ _ => by_cases hd : d = c <;> simp [Pc.client, Pc.buffer, Pc.writing, Pc.returning, hd]
  | stop d => by_cases hd : d = c <;> simp [Pc.client, Pc.buffer, Pc.writing, Pc.returning, hd]

theorem places_eq (c b : Nat) (cl : Client) (ts : List Pc) : places some b c cl ts
    = cl.pool.count b + tokens (Pc.writing c) b ts + owners c b cl ts := by
  have hheld : tokens (fun l => (Pc.held c l).bind some) b ts
      = tokens (Pc.writing c) b ts + tokens (Pc.returning c) b ts := by
    induction ts with
    | nil => rfl
    | cons l ts ih =>
      rw [tokens_cons, tokens_cons, tokens_cons, tok_held, ih]
      omega
  rw [places, owners, hheld, tokens_some_eq_count]
  omega

theorem Completion.buffers {cl cl' : Client} (h : Completion cl cl') :
    cl'.buffers = cl.buffers := by
  cases h <;> rfl

theorem Completion.places {κ : Type} [DecidableEq κ] {cl cl' : Client} (h : Completion cl cl')
    (g : Nat → Option κ) (k : κ) (c : Nat) (ts : List Pc) :
    Writer.places g k c cl' ts = Writer.places g k c cl ts := by
  unfold Writer.places
  cases h with
  | @send j sd ec _ _ hj =>
    have herase := tokens_eraseIdx (fun sd : Send => g sd.buffer) k hj
    have htok : tok (fun p : Nat × Bool => g p.1) k (sd.buffer, ec)
        = tok (fun sd : Send => g sd.buffer) k sd := rfl
    rw [tokens_append, tokens_cons, tokens_nil, htok]
    dsimp only
    omega
  | close => rfl

variable {s : Conf (List Client) Pc} {c : Nat} {cl : Client}

theorem keepsBuffers_any : KeepsBuffers Completion where
  buffers h := h.buffers
  places h := h.places

theorem places_any (h : AnyReachable s) (hcl : s.shared[c]? = some cl) (b : Nat) :
    places some b c cl s.threads = if b < cl.buffers.length then 1 else 0 := by
  obtain ⟨n, h⟩ := h
  exact senders_any.places_some keepsBuffers_any h hcl b

theorem places_any_le (h : AnyReachable s) (hcl : s.shared[c]? = some cl) (b : Nat) :
    places some b c cl s.threads ≤ 1 := by
  rw [places_any h hcl]
  split <;> omega

/-! ## The buffer of a send -/

theorem filled (h : AnyReachable s) (hcl : s.shared[c]? = some cl) : Filled c cl s.threads := by
  obtain ⟨n, h⟩ := h
  exact senders_any.filled keepsBuffers_any h c cl hcl

/-- Thread `i` is not about to put buffer `b` of client `c` back. -/
def Keeps (c b : Nat) (s : Conf (List Client) Pc) : Move Outside Choice → Prop
  | .env _ => True
  | .run i _ => ∀ ec, s.threads[i]? ≠ some (.put c b ec)

/-- A step that does not put the buffer back leaves it, and its owner, alone. -/
theorem ClientStep.owned {b i : Nat} {ts : List Pc} {cl' : Client} {l l' : Pc}
    (h : ClientStep c cl l cl' l') (hl : ts[i]? = some l)
    (hone : Writer.places some b c cl ts ≤ 1) (hput : ∀ ec, l ≠ .put c b ec) (ho : 0 < owners c b cl ts) :
    cl'.buffers[b]? = cl.buffers[b]? ∧ 0 < owners c b cl' (ts.set i l') := by
  have hset := tokens_set (Pc.returning c) b hl l'
  have htok : ∀ {l : Pc}, Pc.returning c l = none → tok (Pc.returning c) b l = 0 :=
    fun h => tok_of_none h
  unfold owners at ho ⊢
  cases h with
  | take _ =>
    rw [htok rfl, htok rfl] at hset
    refine ⟨rfl, ?_⟩
    dsimp only
    omega
  | @fill chMsg b' =>
    rw [htok rfl, htok rfl] at hset
    refine ⟨?_, ?_⟩
    · by_cases hb : b' = b
      · -- the buffer would be in two places
        subst hb
        have hw : 1 ≤ tokens (Pc.writing c) b' ts :=
          one_le_tokens (List.mem_of_getElem? hl) (if_pos rfl)
        rw [places_eq, owners] at hone
        omega
      · rw [Client.fill, List.getElem?_set_ne hb]
    · dsimp only [Client.fill]
      omega
  | send _ =>
    rw [htok rfl, htok rfl] at hset
    refine ⟨rfl, ?_⟩
    dsimp only
    rw [tokens_append]
    omega
  | @handle j b' ec hj =>
    have herase := tokens_eraseIdx (fun p : Nat × Bool => some p.1) b hj
    have hq : tok (fun p : Nat × Bool => some p.1) b (b', ec)
        = tok (Pc.returning c) b (.put c b' ec) := by
      simp [tok, Pc.returning]
    rw [htok rfl] at hset
    rw [hq] at herase
    refine ⟨rfl, ?_⟩
    dsimp only
    omega
  | @put b' ec =>
    have hb : b' ≠ b := by
      rintro rfl
      exact hput ec rfl
    have hthis : tok (Pc.returning c) b (.put c b' ec) = 0 :=
      tok_of_ne (by simp [Pc.returning, hb])
    have hnext : tok (Pc.returning c) b (if ec then .stop c else .ready) = 0 := by
      cases ec <;> rfl
    rw [hthis, hnext] at hset
    refine ⟨rfl, ?_⟩
    dsimp only [Client.put]
    omega
  | stop =>
    rw [htok rfl, htok rfl] at hset
    refine ⟨rfl, ?_⟩
    dsimp only
    omega

/-- What happens to a client leaves its buffers, and their owners, alone. -/
theorem Completion.owners {cl' : Client} (h : Completion cl cl') (b : Nat) (ts : List Pc) :
    Writer.owners c b cl' ts = Writer.owners c b cl ts := by
  have hp := h.places some b c ts
  have hpool : cl'.pool = cl.pool := by cases h <;> rfl
  rw [places_eq, places_eq, hpool] at hp
  omega

/-- A thread that steps elsewhere returns no buffer of client `c`. -/
theorem owners_set_of_ne {b i : Nat} {ts : List Pc} {l l' : Pc} (hl : ts[i]? = some l)
    (h : ∀ b, Pc.returning c l ≠ some b) (h' : ∀ b, Pc.returning c l' ≠ some b) :
    owners c b cl (ts.set i l') = owners c b cl ts := by
  have hset := tokens_set (Pc.returning c) b hl l'
  rw [tok_of_ne (h b), tok_of_ne (h' b)] at hset
  unfold owners
  omega

theorem client_of_returning {l : Pc} {b : Nat} (h : Pc.returning c l = some b) :
    l.client = some c := by
  unfold Pc.returning at h
  split at h
  · split at h
    · next hd =>
      rw [← hd]
      rfl
    · cases h
  · cases h

/-- **The buffer of a send keeps its message** until its handler puts it back. -/
theorem kept {s₁ s₂ : Conf (List Client) Pc} {b : Nat} {m : ChatMessage} (h₁ : AnyReachable s₁)
    (hcl : s₁.shared[c]? = some cl) (hm : cl.buffers[b]? = some m)
    (ho : 0 < owners c b cl s₁.threads) (h : anySenders.Reach (Keeps c b) s₁ s₂) :
    ∃ cl', s₂.shared[c]? = some cl' ∧ cl'.buffers[b]? = some m ∧
      0 < owners c b cl' s₂.threads := by
  have hreach : ∀ {s : Conf (List Client) Pc}, anySenders.Reach (Keeps c b) s₁ s →
      AnyReachable s := by
    intro s hs
    obtain ⟨n, h₁⟩ := h₁
    exact ⟨n, h₁.trans (hs.mono fun _ _ _ => trivial)⟩
  refine Program.Reach.rule (I := fun cs ts => ∃ cl' : Client, cs[c]? = some cl' ∧
    cl'.buffers[b]? = some m ∧ 0 < owners c b cl' ts) ⟨cl, hcl, hm, ho⟩ ?_ ?_ h
  · rintro cs ts e cs' ls _ ⟨cl', hcl', hm', ho'⟩ _ he
    rcases senders_any.env he with ⟨datas, _, rfl, rfl⟩ | ⟨rfl, rfl⟩ | ⟨d, cl₁, cl₂, hd, rfl, rfl, hev⟩
    · refine ⟨cl', ?_, hm', ?_⟩
      · rw [List.getElem?_append_left (List.getElem?_eq_some_iff.mp hcl').1]
        exact hcl'
      · rw [List.append_nil]
        exact ho'
    · refine ⟨cl', hcl', hm', ?_⟩
      unfold owners at ho' ⊢
      rw [tokens_append]
      omega
    · rw [List.append_nil]
      by_cases hdc : d = c
      · subst hdc
        cases hd.symm.trans hcl'
        refine ⟨cl₂, List.getElem?_set_self (List.getElem?_eq_some_iff.mp hd).1, ?_, ?_⟩
        · rw [hev.buffers]
          exact hm'
        · rw [hev.owners]
          exact ho'
      · exact ⟨cl', by rw [List.getElem?_set_ne hdc]; exact hcl', hm', ho'⟩
  · rintro cs ts i l r cs' l' hR ⟨cl', hcl', hm', ho'⟩ hkeep hl he
    rcases senders_any.exec he with ⟨d, chMsg, _, rfl, rfl, _, rfl⟩ | ⟨d, cl₁, cl₂, hd, rfl, hst⟩
    · refine ⟨cl', hcl', hm', ?_⟩
      rw [owners_set_of_ne hl (by intro _ he; cases he) (by intro _ he; cases he)]
      exact ho'
    · by_cases hdc : d = c
      · subst hdc
        cases hd.symm.trans hcl'
        obtain ⟨hb, ho₂⟩ := hst.owned hl (places_any_le (hreach hR) hd b)
          (fun ec he => hkeep ec (by rw [hl, he])) ho'
        refine ⟨cl₂, List.getElem?_set_self (List.getElem?_eq_some_iff.mp hd).1, ?_, ho₂⟩
        rw [hb]
        exact hm'
      · -- the thread steps inside another client
        obtain ⟨hne, hne'⟩ := hst.client fun h => hdc h.symm
        refine ⟨cl', by rw [List.getElem?_set_ne hdc]; exact hcl', hm', ?_⟩
        rw [owners_set_of_ne hl (fun _ h => hne (client_of_returning h))
          (fun _ h => hne' (client_of_returning h))]
        exact ho'

/-- **The buffer pool is conserved**: each of a client's buffers is in the pool,
with one `do_write`, or with one outstanding send, and from the start of a send
on its buffer holds the message of that `do_write`, as long as the handler has
not put it back. -/
theorem pool_conserved (h : AnyReachable s) :
    (∀ (c : Nat) (cl : Client), s.shared[c]? = some cl → ∀ b, b < cl.buffers.length →
      cl.pool.count b + tokens (Pc.writing c) b s.threads + owners c b cl s.threads = 1) ∧
    ∀ (i c b : Nat) (chMsg : Outgoing) (s₁ s₂ : Conf (List Client) Pc),
      s.threads[i]? = some (.send c chMsg b) → anySenders.step s (.run i .go) = some s₁ →
      anySenders.Reach (Keeps c b) s₁ s₂ →
      ∃ cl, s₂.shared[c]? = some cl ∧ cl.buffers[b]? = some chMsg.1 := by
  constructor
  · intro c cl hcl b hb
    have hp := places_any h hcl b
    rw [if_pos hb, places_eq] at hp
    exact hp
  · intro i c b chMsg s₁ s₂ hl hstep hreach
    have h₁ : AnyReachable s₁ := by
      obtain ⟨n, h⟩ := h
      exact ⟨n, h.tail ⟨_, trivial, hstep⟩⟩
    rcases Program.step_cases hstep with
      ⟨_, _, _, hm, _, _⟩ | ⟨i', r, l, cs, l', hm, hl', he, rfl⟩
    · cases hm
    · cases hm
      cases hl.symm.trans hl'
      rcases senders_any.exec he with ⟨_, _, hw, _⟩ | ⟨d, cl, cl', hd, rfl, hst⟩
      · cases hw
      · cases hst with
        | @send _ _ m hb =>
          have hbuf := filled h hd chMsg b (List.mem_of_getElem? hl)
          have hown : 1 ≤ tokens (fun sd : Send => some sd.buffer) b
              (cl.sending ++ [{ buffer := b, len := m.length, chMsg }]) :=
            one_le_tokens (List.mem_append_right _ (List.mem_singleton_self _)) rfl
          obtain ⟨cl₂, hcl₂, hb₂, _⟩ := kept h₁
            (List.getElem?_set_self (List.getElem?_eq_some_iff.mp hd).1) hbuf
            (by unfold owners; dsimp only; omega) hreach
          exact ⟨cl₂, hcl₂, hb₂⟩

/-- Two threads answer logins of one client with two buffers: the first is about
to send, the second has taken its buffer. -/
def twoAnswers : Conf (List Client) Pc :=
  anySenders.after (fun _ _ => true) (start 2)
    [.env (.connect [zeroed, zeroed]), .run 0 (.write 0 loginAnswer), .run 0 .go, .run 0 .go,
     .run 1 (.write 0 loginAnswer), .run 1 .go]

theorem pool_conserved_twoAnswers :
    twoAnswers.threads = [.send 0 loginAnswer 0, .fill 0 loginAnswer 1] ∧
    (∀ (c : Nat) (cl : Client), twoAnswers.shared[c]? = some cl → ∀ b, b < cl.buffers.length →
      cl.pool.count b + tokens (Pc.writing c) b twoAnswers.threads
        + owners c b cl twoAnswers.threads = 1) ∧
    ∀ (i c b : Nat) (chMsg : Outgoing) (s₁ s₂ : Conf (List Client) Pc),
      twoAnswers.threads[i]? = some (.send c chMsg b) →
      anySenders.step twoAnswers (.run i .go) = some s₁ →
      anySenders.Reach (Keeps c b) s₁ s₂ →
      ∃ cl, s₂.shared[c]? = some cl ∧ cl.buffers[b]? = some chMsg.1 :=
  ⟨by decide +kernel, pool_conserved ⟨2, (Program.reach_after (by decide +kernel)).mono
    fun _ _ _ => trivial⟩⟩

end CiaServer.Net.Writer
