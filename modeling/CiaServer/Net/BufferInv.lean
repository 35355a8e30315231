import CiaServer.Net.Writer

/-!
# Every buffer of a client is in one place

A buffer is in the pool, with a thread between `Take` and `async_send`, under a
send, with a completion handler that has not run, or with the handler that is
about to put it back. `places` counts a client's buffers over all of these,
each under the name `g` gives it: its own number (so that no buffer is in two
places), or the same name for all (so that none is lost). One step moves one
buffer from place to place, so the count stays what the constructor made it
(`placesInv`).
-/

namespace CiaServer.Net.Writer

open Wire Interleave

/-! ## Who holds what -/

/-- The client a thread is busy with. -/
def Pc.client : Pc → Option Nat
  | .ready => none
  | .take c _ => some c
  | .fill c _ _ => some c
  | .send c _ _ => some c
  | .put c _ _ => some c
  | .stop c => some c

/-- The buffer a thread holds. -/
def Pc.buffer : Pc → Option Nat
  | .fill _ _ b => some b
  | .send _ _ b => some b
  | .put _ b _ => some b
  | _ => none

/-- The buffer of client `c` that a thread holds. -/
def Pc.held (c : Nat) (l : Pc) : Option Nat := if l.client = some c then l.buffer else none

theorem Pc.held_of_ne {c : Nat} {l : Pc} (h : l.client ≠ some c) : l.held c = none := if_neg h

theorem Pc.held_of_eq {c : Nat} {l : Pc} (h : l.client = some c) : l.held c = l.buffer := if_pos h

variable {κ : Type} [DecidableEq κ]

theorem tok_held_none {g : Nat → Option κ} {k : κ} {c : Nat} {l : Pc} (h : l.held c = none) :
    tok (fun l => (Pc.held c l).bind g) k l = 0 := tok_of_none (by rw [h]; rfl)

theorem tok_held_some {g : Nat → Option κ} {k : κ} {c b : Nat} {l : Pc} (h : l.held c = some b) :
    tok (fun l => (Pc.held c l).bind g) k l = tok g k b := by
  rw [tok, tok, h]
  rfl

/-- How many of the buffers of client `c` called `k` there are, in all places. -/
def places (g : Nat → Option κ) (k : κ) (c : Nat) (cl : Client) (ts : List Pc) : Nat :=
  tokens g k cl.pool + tokens (fun sd => g sd.buffer) k cl.sending
    + tokens (fun p => g p.1) k cl.completed + tokens (fun l => (l.held c).bind g) k ts

/-- A buffer that is in one place at most and in a thread's hands is in no other
place. -/
theorem places_alone {c i b : Nat} {cl : Client} {ts : List Pc} {l : Pc}
    (hp : places some b c cl ts ≤ 1) (hl : ts[i]? = some l) (hb : l.held c = some b) :
    (∀ sd ∈ cl.sending, sd.buffer ≠ b) ∧ (∀ p ∈ cl.completed, p.1 ≠ b) ∧
      ∀ j m, i ≠ j → ts[j]? = some m → m.held c ≠ some b := by
  unfold places at hp
  have htok : ∀ m : Pc, m.held c = some b → tok (fun l => (Pc.held c l).bind some) b m = 1 := by
    intro m hm
    rw [tok_held_some hm]
    exact tok_of_eq rfl
  have hheld : 1 ≤ tokens (fun l => (Pc.held c l).bind some) b ts := by
    have := tok_le_tokens (fun l => (Pc.held c l).bind some) b (List.mem_of_getElem? hl)
    rw [htok l hb] at this
    exact this
  refine ⟨?_, ?_, ?_⟩
  · intro sd hsd he
    have hsend : 1 ≤ tokens (fun sd : Send => some sd.buffer) b cl.sending :=
      one_le_tokens hsd (congrArg some he)
    omega
  · intro p hp' he
    have hdone : 1 ≤ tokens (fun p : Nat × Bool => some p.1) b cl.completed :=
      one_le_tokens hp' (congrArg some he)
    omega
  · intro j m hij hm hmb
    have := tok_add_tok_le (fun l => (Pc.held c l).bind some) b hij hl hm
    rw [htok l hb, htok m hmb] at this
    omega

/-- A step inside a client is a step of a thread that is busy with it. -/
theorem ClientStep.client {c d : Nat} {cl cl' : Client} {l l' : Pc} (h : ClientStep c cl l cl' l')
    (hd : d ≠ c) : l.client ≠ some d ∧ l'.client ≠ some d := by
  have hne : (some c : Option Nat) ≠ some d := fun he => hd (Option.some.inj he).symm
  cases h with
  | take _ => exact ⟨hne, hne⟩
  | fill => exact ⟨hne, hne⟩
  | send _ => exact ⟨hne, nofun⟩
  | handle _ => exact ⟨nofun, hne⟩
  | @put _ ec =>
    refine ⟨hne, ?_⟩
    cases ec with
    | true => exact hne
    | false => exact nofun
  | stop => exact ⟨hne, nofun⟩

theorem ClientStep.known {c d : Nat} {cl cl' : Client} {l l' : Pc} (h : ClientStep c cl l cl' l')
    (hd : l'.client = some d) : d = c := by
  by_contra hne
  exact (h.client hne).2 hd

/-! ## One step moves one buffer -/

/-- A step inside a client moves one of its buffers, or none. -/
theorem ClientStep.places {c : Nat} {cl cl' : Client} {l l' : Pc} (h : ClientStep c cl l cl' l')
    (g : Nat → Option κ) (k : κ) {ts : List Pc} {i : Nat} (hl : ts[i]? = some l) :
    Writer.places g k c cl' (ts.set i l') = Writer.places g k c cl ts := by
  have hset := tokens_set (fun l => (Pc.held c l).bind g) k hl l'
  unfold Writer.places
  cases h with
  | take hp =>
    rw [tok_held_none (Pc.held_of_eq rfl), tok_held_some (Pc.held_of_eq rfl)] at hset
    rw [hp, tokens_cons]
    dsimp only
    omega
  | fill =>
    rw [tok_held_some (Pc.held_of_eq rfl), tok_held_some (Pc.held_of_eq rfl)] at hset
    dsimp only [Client.fill]
    omega
  | @send chMsg b m hb =>
    rw [tok_held_some (Pc.held_of_eq rfl), tok_held_none rfl] at hset
    have hsd : tok (fun sd : Send => g sd.buffer) k { buffer := b, len := m.length, chMsg }
        = tok g k b := rfl
    rw [tokens_append, tokens_cons, tokens_nil, hsd]
    dsimp only
    omega
  | handle hj =>
    have herase := tokens_eraseIdx (fun p : Nat × Bool => g p.1) k hj
    rw [tok_held_none rfl, tok_held_some (Pc.held_of_eq rfl)] at hset
    change _ + tok g k _ = _ at herase
    dsimp only at hset herase ⊢
    omega
  | @put b ec =>
    have hnone : (if ec then Pc.stop c else .ready).held c = none := by
      cases ec with
      | true => exact Pc.held_of_eq rfl
      | false => exact Pc.held_of_ne nofun
    rw [tok_held_some (Pc.held_of_eq rfl), tok_held_none hnone] at hset
    rw [Client.put, tokens_append, tokens_cons, tokens_nil]
    dsimp only
    omega
  | stop =>
    rw [tok_held_none (Pc.held_of_eq rfl), tok_held_none rfl] at hset
    dsimp only
    omega

/-- A thread that is busy elsewhere holds nothing here. -/
theorem places_set_of_ne (g : Nat → Option κ) (k : κ) {c i : Nat} (cl : Client) {ts : List Pc}
    {l l' : Pc} (hl : ts[i]? = some l) (hne : l.client ≠ some c) (hne' : l'.client ≠ some c) :
    places g k c cl (ts.set i l') = places g k c cl ts := by
  have hset := tokens_set (fun l => (Pc.held c l).bind g) k hl l'
  rw [tok_held_none (Pc.held_of_ne hne), tok_held_none (Pc.held_of_ne hne')] at hset
  unfold places
  omega

/-- A thread that waits for a buffer has none. -/
theorem places_set_take (g : Nat → Option κ) (k : κ) {c d i : Nat} (cl : Client) {ts : List Pc}
    {chMsg : Outgoing} (hl : ts[i]? = some .ready) :
    places g k c cl (ts.set i (.take d chMsg)) = places g k c cl ts := by
  have hset := tokens_set (fun l => (Pc.held c l).bind g) k hl (.take d chMsg)
  have hnone : (Pc.take d chMsg).held c = none := by
    unfold Pc.held
    split <;> rfl
  rw [tok_held_none rfl, tok_held_none hnone] at hset
  unfold places
  omega

theorem ClientEvent.places {cl cl' : Client} (h : ClientEvent cl cl') (g : Nat → Option κ) (k : κ)
    (c : Nat) (ts : List Pc) : Writer.places g k c cl' ts = Writer.places g k c cl ts := by
  unfold Writer.places
  cases h with
  | transmit hs _ _ _ _ =>
    simp only [hs, tokens_append, tokens_cons, tokens_nil, tok]
    omega
  | abort hs _ =>
    simp only [hs, tokens_append, tokens_cons, tokens_nil, tok]
    omega
  | close => rfl

/-! ## Every run -/

/-- Threads are busy with clients that exist. -/
def Known (cs : List Client) (ts : List Pc) : Prop :=
  ∀ l ∈ ts, ∀ c, l.client = some c → c < cs.length

/-- A program whose threads are those of the senders: clients come with the
buffers `new` allows, and `event` is what happens to a client without a thread. -/
structure Senders {α : Type} (P : Program (List Client) Pc α Choice)
    (new : List Buffer → Prop) (event : Client → Client → Prop) : Prop where
  exec {i : Nat} {cs cs' : List Client} {l l' : Pc} {r : Choice}
    (h : P.exec cs i l r = some (cs', l')) :
    (∃ c chMsg, r = .write c chMsg ∧ l = .ready ∧ l' = .take c chMsg ∧ c < cs.length ∧ cs' = cs) ∨
    (∃ c cl cl', cs[c]? = some cl ∧ cs' = cs.set c cl' ∧ ClientStep c cl l cl' l')
  env {n : Nat} {cs cs' : List Client} {e : α} {ls : List Pc} (h : P.env cs n e = some (cs', ls)) :
    (∃ datas : List Buffer, new datas ∧ cs' = cs ++ [Client.new datas] ∧ ls = []) ∨
    (cs' = cs ∧ ls = [.ready]) ∨
    (∃ c cl cl', cs[c]? = some cl ∧ cs' = cs.set c cl' ∧ ls = [] ∧ event cl cl')

section
variable {α : Type} {P : Program (List Client) Pc α Choice} {new : List Buffer → Prop}
  {event : Client → Client → Prop} {n : Nat}

theorem Senders.known (hP : Senders P new event) {s : Conf (List Client) Pc}
    (h : P.Reach (fun _ _ => True) (start n) s) : Known s.shared s.threads := by
  refine Program.Reach.rule (I := Known) ?_ ?_ ?_ h
  · intro l hl c hc
    rw [List.eq_of_mem_replicate hl] at hc
    cases hc
  · intro cs ts e cs' ls _ hk _ he l hl c hc
    rcases hP.env he with ⟨datas, _, rfl, rfl⟩ | ⟨rfl, rfl⟩ | ⟨d, cl, cl', hcl, rfl, rfl, _⟩
    · rw [List.append_nil] at hl
      have := hk l hl c hc
      rw [List.length_append]
      omega
    · rw [List.mem_append, List.mem_singleton] at hl
      rcases hl with hl | rfl
      · exact hk l hl c hc
      · cases hc
    · rw [List.append_nil] at hl
      rw [List.length_set]
      exact hk l hl c hc
  · intro cs ts i l r cs' l' _ hk _ hl he m hm c hc
    have hlen : cs'.length = cs.length := by
      rcases hP.exec he with ⟨_, _, _, _, _, _, rfl⟩ | ⟨_, _, _, _, rfl, _⟩
      · rfl
      · rw [List.length_set]
    rw [hlen]
    rcases mem_set_cases hl hm with rfl | ⟨j, _, hj⟩
    · rcases hP.exec he with ⟨d, _, _, _, rfl, hd, _⟩ | ⟨d, cl, cl', hcl, _, hstep⟩
      · cases hc
        exact hd
      · rw [hstep.known hc]
        exact (List.getElem?_eq_some_iff.mp hcl).1
    · exact hk m (List.mem_of_getElem? hj) c hc

/-- The invariant rule for one client: it holds of a new client, it is kept by
what happens to the client itself, and what other threads do is no matter. -/
theorem Senders.rule (hP : Senders P new event) {I : Nat → Client → List Pc → Prop}
    (hnew : ∀ cs ts datas, P.Reach (fun _ _ => True) (start n) ⟨cs, ts⟩ → new datas →
      I cs.length (Client.new datas) ts)
    (hspawn : ∀ c cl ts, I c cl ts → I c cl (ts ++ [.ready]))
    (hevent : ∀ cs ts c cl cl', P.Reach (fun _ _ => True) (start n) ⟨cs, ts⟩ → cs[c]? = some cl →
      I c cl ts → event cl cl' → I c cl' ts)
    (hwrite : ∀ c cl ts i d chMsg, ts[i]? = some .ready → I c cl ts →
      I c cl (ts.set i (.take d chMsg)))
    (hstep : ∀ cs ts i c cl cl' l l', P.Reach (fun _ _ => True) (start n) ⟨cs, ts⟩ →
      cs[c]? = some cl → ts[i]? = some l → I c cl ts → ClientStep c cl l cl' l' →
      I c cl' (ts.set i l'))
    (hother : ∀ c cl ts i l l', ts[i]? = some l → l.client ≠ some c → l'.client ≠ some c →
      I c cl ts → I c cl (ts.set i l'))
    {s : Conf (List Client) Pc} (h : P.Reach (fun _ _ => True) (start n) s) :
    ∀ (c : Nat) (cl : Client), s.shared[c]? = some cl → I c cl s.threads := by
  refine Program.Reach.rule
    (I := fun cs ts => ∀ (c : Nat) (cl : Client), cs[c]? = some cl → I c cl ts) ?_ ?_ ?_ h
  · intro c cl hcl
    cases hcl
  · intro cs ts e cs' ls hR hi _ he c cl hcl
    rcases hP.env he with
      ⟨datas, hT, rfl, rfl⟩ | ⟨rfl, rfl⟩ | ⟨d, cl₁, cl₂, hd, rfl, rfl, hev⟩
    · rw [List.append_nil]
      rcases getElem?_append_cases hcl with hcl | ⟨rfl, rfl⟩
      · exact hi c cl hcl
      · exact hnew cs ts datas hR hT
    · exact hspawn c cl ts (hi c cl hcl)
    · rw [List.append_nil]
      rcases getElem?_set_cases hd hcl with ⟨rfl, rfl⟩ | ⟨_, hcl⟩
      · exact hevent cs ts c cl₁ _ hR hd (hi c cl₁ hd) hev
      · exact hi c cl hcl
  · intro cs ts i l r cs' l' hR hi _ hl he c cl hcl
    rcases hP.exec he with ⟨d, chMsg, _, rfl, rfl, _, rfl⟩ | ⟨d, cl₁, cl₂, hd, rfl, hst⟩
    · exact hwrite c cl ts i d chMsg hl (hi c cl hcl)
    · rcases getElem?_set_cases hd hcl with ⟨rfl, rfl⟩ | ⟨hne, hcl⟩
      · exact hstep cs ts i c cl₁ _ l l' hR hd hl (hi c cl₁ hd) hst
      · -- the thread steps inside another client
        obtain ⟨h₁, h₂⟩ := hst.client hne
        exact hother c cl ts i l l' hl h₁ h₂ (hi c cl hcl)

theorem ClientStep.length_buffers {c : Nat} {cl cl' : Client} {l l' : Pc}
    (h : ClientStep c cl l cl' l') : cl'.buffers.length = cl.buffers.length := by
  cases h with
  | fill => rw [Client.fill, List.length_set]
  | _ => rfl

/-- What happens to a client without a thread neither changes a buffer nor loses
one. -/
structure KeepsBuffers (event : Client → Client → Prop) : Prop where
  buffers {cl cl' : Client} (h : event cl cl') : cl'.buffers = cl.buffers
  places {κ : Type} [DecidableEq κ] {cl cl' : Client} (h : event cl cl') (g : Nat → Option κ)
    (k : κ) (c : Nat) (ts : List Pc) : Writer.places g k c cl' ts = Writer.places g k c cl ts

/-- The buffers of a client are in as many places as there are buffers. -/
theorem Senders.placesInv (hP : Senders P new event) (hE : KeepsBuffers event)
    (g : Nat → Option κ) (k : κ) {s : Conf (List Client) Pc}
    (h : P.Reach (fun _ _ => True) (start n) s) :
    ∀ (c : Nat) (cl : Client), s.shared[c]? = some cl →
      places g k c cl s.threads = tokens g k (List.range cl.buffers.length) := by
  refine hP.rule
    (I := fun c cl ts => places g k c cl ts = tokens g k (List.range cl.buffers.length))
    ?_ ?_ ?_ ?_ ?_ ?_ h
  · intro cs ts datas hR _
    -- no thread is busy with a client that was not there
    have hno : tokens (fun l => (Pc.held cs.length l).bind g) k ts = 0 := by
      refine tokens_eq_zero_iff.mpr fun l hl => ?_
      have hne : l.client ≠ some cs.length := fun hc =>
        Nat.lt_irrefl _ (hP.known hR l hl cs.length hc)
      rw [Pc.held_of_ne hne]
      nofun
    simp only [places, Client.new, List.length_map, tokens_nil, hno]
    omega
  · intro c cl ts hp
    have hready : tokens (fun l => (Pc.held c l).bind g) k [Pc.ready] = 0 := rfl
    unfold places at hp ⊢
    rw [tokens_append, hready]
    omega
  · intro cs ts c cl cl' _ _ hp hev
    rw [hE.places hev, hE.buffers hev]
    exact hp
  · intro c cl ts i d chMsg hl hp
    exact (places_set_take g k cl hl).trans hp
  · intro cs ts i c cl cl' l l' _ _ hl hp hst
    rw [hst.places g k hl, hst.length_buffers]
    exact hp
  · intro c cl ts i l l' hl h₁ h₂ hp
    exact (places_set_of_ne g k cl hl h₁ h₂).trans hp

/-- Each buffer of a client is in one place. -/
theorem Senders.places_some (hP : Senders P new event) (hE : KeepsBuffers event)
    {s : Conf (List Client) Pc} (h : P.Reach (fun _ _ => True) (start n) s) {c : Nat} {cl : Client}
    (hcl : s.shared[c]? = some cl) (b : Nat) :
    places some b c cl s.threads = if b < cl.buffers.length then 1 else 0 := by
  rw [← tokens_range]
  exact hP.placesInv hE some b h c cl hcl

/-- The buffer in a thread's hands is one of the client's and in no other place. -/
theorem Senders.alone (hP : Senders P new event) (hE : KeepsBuffers event)
    {s : Conf (List Client) Pc} (h : P.Reach (fun _ _ => True) (start n) s) {c i b : Nat}
    {cl : Client} {l : Pc} (hcl : s.shared[c]? = some cl) (hl : s.threads[i]? = some l)
    (hb : l.held c = some b) :
    b < cl.buffers.length ∧ (∀ sd ∈ cl.sending, sd.buffer ≠ b) ∧
      ∀ j m, i ≠ j → s.threads[j]? = some m → m.held c ≠ some b := by
  have hp := hP.places_some hE h hcl b
  have hle : places some b c cl s.threads ≤ 1 := by
    rw [hp]
    split <;> omega
  obtain ⟨hsend, _, hothers⟩ := places_alone hle hl hb
  refine ⟨?_, hsend, hothers⟩
  by_contra hlt
  have hheld : 1 ≤ tokens (fun l => (Pc.held c l).bind some) b s.threads :=
    one_le_tokens (List.mem_of_getElem? hl) (by rw [hb]; rfl)
  rw [if_neg hlt, places] at hp
  omega

/-! ## What is about to be sent -/

/-- A buffer that is about to be sent holds the message. -/
def Filled (c : Nat) (cl : Client) (ts : List Pc) : Prop :=
  ∀ chMsg b, Pc.send c chMsg b ∈ ts → cl.buffers[b]? = some chMsg.1

theorem Filled.set {c i : Nat} {cl : Client} {ts : List Pc} {l l' : Pc} (hi : Filled c cl ts)
    (hl : ts[i]? = some l) (hne : ∀ chMsg b, l' ≠ .send c chMsg b) :
    Filled c cl (ts.set i l') := by
  intro chMsg b hm
  rcases mem_set_cases hl hm with he | ⟨j, _, hj⟩
  · exact absurd he.symm (hne chMsg b)
  · exact hi chMsg b (List.mem_of_getElem? hj)

/-- A message is copied to a buffer that nobody else has. -/
theorem Filled.fill {c i b : Nat} {cl : Client} {ts : List Pc} {l : Pc} {chMsg : Outgoing}
    (hi : Filled c cl ts) (hl : ts[i]? = some l) (hlt : b < cl.buffers.length)
    (hothers : ∀ j m, i ≠ j → ts[j]? = some m → m.held c ≠ some b) :
    Filled c (cl.fill chMsg b) (ts.set i (.send c chMsg b)) := by
  intro m b' hm
  rw [Client.fill]
  rcases mem_set_cases hl hm with he | ⟨j, hij, hj⟩
  · cases he
    exact List.getElem?_set_self hlt
  · have hne : b ≠ b' := by
      rintro rfl
      exact hothers j _ hij hj (Pc.held_of_eq rfl)
    rw [List.getElem?_set_ne hne]
    exact hi m b' (List.mem_of_getElem? hj)

/-- **What is about to be sent is the message** of that `do_write`. -/
theorem Senders.filled (hP : Senders P new event) (hE : KeepsBuffers event)
    {s : Conf (List Client) Pc} (h : P.Reach (fun _ _ => True) (start n) s) :
    ∀ (c : Nat) (cl : Client), s.shared[c]? = some cl → Filled c cl s.threads := by
  refine hP.rule (I := Filled) ?_ ?_ ?_ ?_ ?_ ?_ h
  · intro cs ts datas hR _ chMsg b hm
    exact absurd (hP.known hR _ hm cs.length rfl) (Nat.lt_irrefl _)
  · intro c cl ts hi chMsg b hm
    rw [List.mem_append, List.mem_singleton] at hm
    rcases hm with hm | hm
    · exact hi chMsg b hm
    · cases hm
  · intro cs ts c cl cl' _ _ hi hev chMsg b hm
    rw [hE.buffers hev]
    exact hi chMsg b hm
  · intro c cl ts i d chMsg hl hi
    exact hi.set hl fun _ _ => nofun
  · intro cs ts i c cl cl' l l' hR hcl hl hi hst
    cases hst with
    | fill =>
      obtain ⟨hlt, _, hothers⟩ := hP.alone hE hR hcl hl (Pc.held_of_eq rfl)
      exact hi.fill hl hlt hothers
    | @put _ ec =>
      refine hi.set hl ?_
      cases ec <;> exact nofun
    | _ => exact hi.set hl (by intro _ _ he; cases he)
  · intro c cl ts i l l' hl _ hne hi
    refine hi.set hl ?_
    rintro chMsg b rfl
    exact hne rfl

end

/-! ## The server's own senders -/

variable {T : Nat}

theorem senders_writer (T : Nat) :
    Senders (writer T) (fun datas => datas.length = T) ClientEvent where
  exec h := exec_cases h
  env h := env_cases (n := 0) h

theorem known {s : Conf (List Client) Pc} (h : Reachable T s) : Known s.shared s.threads :=
  (senders_writer T).known h

/-- The invariant rule for one client of the server. -/
theorem client_rule {I : Nat → Client → List Pc → Prop}
    (hnew : ∀ cs ts datas, Reachable T ⟨cs, ts⟩ → datas.length = T →
      I cs.length (Client.new datas) ts)
    (hspawn : ∀ c cl ts, I c cl ts → I c cl (ts ++ [.ready]))
    (hevent : ∀ cs ts c cl cl', Reachable T ⟨cs, ts⟩ → cs[c]? = some cl → I c cl ts →
      ClientEvent cl cl' → I c cl' ts)
    (hwrite : ∀ c cl ts i d chMsg, ts[i]? = some .ready → I c cl ts →
      I c cl (ts.set i (.take d chMsg)))
    (hstep : ∀ cs ts i c cl cl' l l', Reachable T ⟨cs, ts⟩ → cs[c]? = some cl →
      ts[i]? = some l → I c cl ts → ClientStep c cl l cl' l' → I c cl' (ts.set i l'))
    (hother : ∀ c cl ts i l l', ts[i]? = some l → l.client ≠ some c → l'.client ≠ some c →
      I c cl ts → I c cl (ts.set i l'))
    {s : Conf (List Client) Pc} (h : Reachable T s) :
    ∀ (c : Nat) (cl : Client), s.shared[c]? = some cl → I c cl s.threads :=
  (senders_writer T).rule hnew hspawn hevent hwrite hstep hother h

theorem ClientEvent.buffers {cl cl' : Client} (h : ClientEvent cl cl') :
    cl'.buffers = cl.buffers := by
  cases h <;> rfl

theorem keepsBuffers_writer : KeepsBuffers ClientEvent where
  buffers h := h.buffers
  places h := h.places

/-- A client has one buffer for each io thread. -/
theorem length_buffers {s : Conf (List Client) Pc} (h : Reachable T s) :
    ∀ (c : Nat) (cl : Client), s.shared[c]? = some cl → cl.buffers.length = T := by
  refine client_rule (I := fun _ cl _ => cl.buffers.length = T) ?_ ?_ ?_ ?_ ?_ ?_ h
  · intro cs ts datas _ hT
    rw [Client.new, List.length_map]
    exact hT
  · exact fun _ _ _ hl => hl
  · intro cs ts c cl cl' _ _ hl hev
    rw [hev.buffers]
    exact hl
  · exact fun _ _ _ _ _ _ _ hl => hl
  · exact fun _ _ _ _ _ _ _ _ _ _ _ hl hst => hst.length_buffers.trans hl
  · exact fun _ _ _ _ _ _ _ _ _ hl => hl

/-- **No buffer is lost and none is in two places.** -/
theorem placesInv (g : Nat → Option κ) (k : κ) {s : Conf (List Client) Pc} (h : Reachable T s) :
    ∀ (c : Nat) (cl : Client), s.shared[c]? = some cl →
      places g k c cl s.threads = tokens g k (List.range T) := by
  intro c cl hcl
  rw [← length_buffers h c cl hcl]
  exact (senders_writer T).placesInv keepsBuffers_writer g k h c cl hcl

end CiaServer.Net.Writer
