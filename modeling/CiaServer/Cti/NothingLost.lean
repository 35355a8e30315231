import CiaServer.Cti.RequestInv

/-!
# No lost request and no leaked channel

When no thread is inside an operation, every channel should be free or carry a
call, and every unanswered request should wait or be recorded on one trunk.
The code breaks this: `cti_hangUp` puts the channel back while it still holds
the trunk, so another `cti_callout` can take the channel and dial it before
the trunk is unlocked; its `try_lock` then fails, and both the channel and the
request are gone (`nothingLost_fails`). The source logs that branch as
critical.

That branch and a failed retry wait are the only ways: `nothingLost_of_keeps`
proves the property for every run in which neither is taken.
-/

namespace CiaServer.Cti

open Interleave

/-- A thread that is not inside an operation: it has returned, or it is one of
the two kinds of worker thread between two rounds. -/
def Pc.outside : Pc → Bool
  | .timeoutCheck (.sleep _) => true
  | .strategy .take => true
  | .strategy (.pause _) => true
  | .done => true
  | _ => false

/-- No thread is inside an operation. -/
def Quiescent (s : Conf Shared Pc) : Prop := ∀ pc ∈ s.threads, pc.outside = true

/-- Every channel is free, or its trunk is busy and has a client. -/
def NoLeakedChannel (cfg : Config) (sh : Shared) : Prop :=
  ∀ c < cfg.numChannelCount, c ∈ sh.channelQueue ∨
    ∃ t, sh.trunkVector[c]? = some t ∧ t.step ≠ .idle ∧ t.clientSocket ≠ none

/-- Request `x` is recorded on trunk `c`, with its client and its `transId`. -/
def RecordedOn (sh : Shared) (x : Nat) (p : CallOutParam) (c : Nat) : Prop :=
  sh.callOn c = some x ∧
    ∃ t, sh.trunkVector[c]? = some t ∧ t.clientSocket = some p.baseClient ∧ t.transId = p.transId

/-- Every request without a response waits on its retry timer or is recorded on
exactly one trunk. -/
def NoLostRequest (sh : Shared) : Prop :=
  ∀ x p, sh.params[x]? = some p → tokens Obs.answers x sh.log = 0 →
    x ∈ sh.waits ∨ ∃! c, RecordedOn sh x p c

/-- No lost request and no leaked channel. -/
def NothingLost (cfg : Config) (s : Conf Shared Pc) : Prop :=
  NoLeakedChannel cfg s.shared ∧ NoLostRequest s.shared

/-! ## The losing run -/

/-- A first call is dialled, recorded and hung up on a busy tone; with the
channel put back and the trunk still locked, a second call takes the channel,
dials and fails to lock. -/
def losingMoves : List (Move Action Int) :=
  [.env (.call 7 [1] [] [] true), .run 2 0, .run 2 0, .run 2 0, .run 2 0, .run 2 0,
   .env (.event .procAutoDial 0 .busytone), .run 3 0, .run 3 0, .run 3 0, .run 3 0, .run 3 0,
   .run 3 0,
   .env (.call 8 [2] [] [] true), .run 4 0, .run 4 0, .run 4 0,
   .run 3 0, .run 3 0]

/-- **The code loses a request and leaks a channel.** -/
theorem nothingLost_fails :
    ¬∀ cfg s, Reachable cfg s → Quiescent s → NothingLost cfg s := by
  intro h
  have hlost := h oneChannel (after oneChannel anyMove (fun _ => true) losingMoves)
    (reachable_after (by decide)).reachable (by unfold Quiescent; decide)
  -- channel 0 is neither in the queue nor on a busy trunk
  rcases hlost.1 0 (by decide) with hq | ⟨t, ht, hs, _⟩
  · exact absurd hq (by decide)
  · have : (after oneChannel anyMove (fun _ => true) losingMoves).shared.trunkVector[0]?.map (·.step)
        = some .idle := by decide
    rw [ht] at this
    exact hs (Option.some.inj this)

/-! ## When nothing is lost -/

/-- The losing branches are not taken: a `cti_callout` whose dial succeeded
finds its trunk unlocked, and a retry wait completes without error. -/
def keeps (s : Conf Shared Pc) : Move Action Int → Bool
  | .run i _ =>
    match s.threads[i]? with
    | some (.callout _ (.lock c)) => s.shared.lockBit c == 0
    | _ => true
  | .env (.fire _ ec) => !ec
  | .env _ => true

/-- Reached without taking a losing branch. -/
abbrev ReachableKeeping (cfg : Config) (s : Conf Shared Pc) : Prop :=
  ReachableBy cfg (fun s m => keeps s m = true) s

theorem lost_of_keeps {sh : Shared} {ts : List Pc} {i : Nat} {r : Int}
    (h : keeps ⟨sh, ts⟩ (.run i r) = true) {pc : Pc} (hpc : ts[i]? = some pc) :
    pc.lostChannel sh = none ∧ pc.lostRequest sh = none := by
  simp only [keeps, hpc] at h
  cases pc with
  | callout x p =>
    cases p with
    | lock c =>
      have hb : sh.lockBit c = 0 := beq_iff_eq.mp h
      simp only [Pc.lostChannel, Pc.lostRequest, hb, Nat.zero_ne_one, if_false, and_self]
    | _ => exact ⟨rfl, rfl⟩
  | _ => exact ⟨rfl, rfl⟩

theorem lostByWait_of_keeps {s : Conf Shared Pc} {a : Action} (h : keeps s (.env a) = true) :
    a.lostRequest = none := by
  unfold Action.lostRequest
  split
  · cases h
  · rfl

variable {cfg : Config} {s : Conf Shared Pc}

/-- Every channel is in exactly one place. -/
theorem channels_kept (h : ReachableKeeping cfg s) {c : Nat} (hc : c < cfg.numChannelCount) :
    s.shared.chan c + tokens Pc.channel c s.threads = 1 := by
  obtain ⟨echo, h⟩ := h
  refine Program.Reach.rule
    (I := fun sh ts => sh.chan c + tokens Pc.channel c ts = 1) ?_ ?_ ?_ h
  · rw [initial_chan, if_pos hc]
  · intro sh ts a sh' new _ hk _ henv
    obtain ⟨h₁, h₂⟩ := env_chan (env_step henv).2 c
    rw [tokens_append, h₂, h₁]
    exact hk
  · intro sh ts i l r sh' l' hreach hk hok hl hex
    have hR := reachable_rangeInv ⟨echo, hreach⟩
    have hC := reachable_chanInv ⟨echo, hreach⟩
    have hmem := List.mem_of_getElem? hl
    have h₁ := tokens_set Pc.channel c hl l'
    have h₂ := thread_chan (exec_step hex).2 hR.queues (hR.threads l hmem)
      (fun x d hd => busy_of_fill hC (hd ▸ hmem)) c
    have h₃ : tok (Pc.lostChannel sh) c l = 0 :=
      tok_of_none (lost_of_keeps hok hl).1
    omega

/-- Every request that was made is in exactly one place. -/
theorem requests_kept (h : ReachableKeeping cfg s) (x : Nat) :
    s.shared.placed x + tokens Pc.request x s.threads = s.shared.made x := by
  obtain ⟨echo, h⟩ := h
  refine Program.Reach.rule
    (I := fun sh ts => sh.placed x + tokens Pc.request x ts = sh.made x) ?_ ?_ ?_ h
  · have h₀ : Reachable cfg (initial cfg echo) := ⟨echo, Relation.ReflTransGen.refl⟩
    exact Nat.le_zero.mp (reachable_requestInv h₀ x)
  · intro sh ts a sh' new _ hk hok henv
    have h₁ := env_req (env_step henv).2 x
    have h₂ : tok Action.lostRequest x a = 0 := tok_of_none (lostByWait_of_keeps hok)
    rw [tokens_append]
    omega
  · intro sh ts i l r sh' l' hreach hk hok hl hex
    have hR := reachable_rangeInv ⟨echo, hreach⟩
    have hC := reachable_chanInv ⟨echo, hreach⟩
    have hmem := List.mem_of_getElem? hl
    have h₁ := tokens_set Pc.request x hl l'
    have h₂ := thread_req (exec_step hex).2 hR.queues (hR.threads l hmem)
      (reachable_callInv ⟨echo, hreach⟩) (fun y d hd => busy_of_fill hC (hd ▸ hmem)) x
    have h₃ : tok (Pc.lostRequest sh) x l = 0 :=
      tok_of_none (lost_of_keeps hok hl).2
    have h₄ := thread_made (exec_step hex).2 x
    omega

/-- Outside every operation a thread has neither a channel nor a request in
hand. -/
theorem Quiescent.tokens {s : Conf Shared Pc} (hq : Quiescent s) (k : Nat) :
    tokens Pc.channel k s.threads = 0 ∧ tokens Pc.request k s.threads = 0 := by
  have hout : ∀ pc : Pc, pc.outside = true → pc.channel = none ∧ pc.request = none := by
    intro pc h
    unfold Pc.outside at h
    split at h <;> first | exact ⟨rfl, rfl⟩ | cases h
  refine ⟨tokens_eq_zero_iff.mpr fun pc hpc => ?_, tokens_eq_zero_iff.mpr fun pc hpc => ?_⟩
  · rw [(hout pc (hq pc hpc)).1]
    exact nofun
  · rw [(hout pc (hq pc hpc)).2]
    exact nofun

/-- A channel with a client on its trunk is busy there. -/
theorem busy_trunk (h : ReachableKeeping cfg s) {c : Nat} (hb : s.shared.busy c = 1) :
    ∃ t, s.shared.trunkVector[c]? = some t ∧ t.step ≠ .idle ∧ t.clientSocket ≠ none := by
  unfold Shared.busy Shared.bit at hb
  split at hb
  · next t ht =>
    have hs : t.clientSocket ≠ none := by
      intro hn
      have hb' : t.clientSocket.isSome.toNat = 1 := hb
      rw [hn] at hb'
      cases hb'
    exact ⟨t, ht, fun hi => hs (reachable_idleInv h c t ht hi), hs⟩
  · cases hb

/-- A request counted once among the calls on the trunks is on exactly one. -/
theorem existsUnique_of_calls {sh : Shared} {x : Nat} (h : tokens id x sh.calls = 1) :
    ∃! c, sh.callOn c = some x := by
  obtain ⟨o, ho, hox⟩ := exists_of_tokens_pos (show 0 < tokens id x sh.calls by omega)
  obtain ⟨c, hc⟩ := List.mem_iff_getElem?.mp ho
  have hget : ∀ d, sh.callOn d = some x → sh.calls[d]? = some (some x) := by
    intro d hd
    unfold Shared.callOn at hd
    cases hg : sh.calls[d]? with
    | none => rw [hg] at hd; cases hd
    | some v => rw [hg] at hd; exact congrArg some hd
  refine ⟨c, ?_, fun d hd => ?_⟩
  · show (sh.calls[c]?).getD none = some x
    rw [hc]
    exact hox
  · exact holder_unique (f := id) (Nat.le_of_eq h) (hget d hd) rfl hc hox

/-- The trunk a request is recorded on has its client and its `transId`. -/
theorem recordedOn_of_callOn (h : ReachableKeeping cfg s) {x c : Nat} {p : CallOutParam}
    (hp : s.shared.params[x]? = some p) (hc : s.shared.callOn c = some x) :
    RecordedOn s.shared x p c := by
  have hR := (reachable_rangeInv h).queues
  have hlt : c < cfg.numChannelCount := by
    rw [← hR.calls]
    by_contra hge
    rw [Shared.callOn, List.getElem?_eq_none (by omega)] at hc
    cases hc
  obtain ⟨t, ht⟩ := hR.exists_trunk hlt
  have hcarry := reachable_callInv h c t ht
  rw [hc] at hcarry
  obtain ⟨q, hq, htq⟩ := hcarry
  rw [hp] at hq
  cases hq
  exact ⟨hc, t, ht, congrArg Prod.fst htq, congrArg (fun k => k.2.1) htq⟩

/-- **Nothing is lost** in any run that takes neither losing branch: whenever
no thread is inside an operation, every channel is free or carries a call, and
every unanswered request waits or is recorded on exactly one trunk. -/
theorem nothingLost_of_keeps (h : ReachableKeeping cfg s) (hq : Quiescent s) :
    NothingLost cfg s := by
  refine ⟨fun c hc => ?_, fun x p hp ha => ?_⟩
  -- one place has the channel, and it is not a thread
  · have h₁ := channels_kept h hc
    rw [(hq.tokens c).1, Shared.chan] at h₁
    rcases Nat.eq_zero_or_pos (tokens some c s.shared.channelQueue) with h₀ | hpos
    · exact Or.inr (busy_trunk h (by omega))
    · obtain ⟨d, hd, hdc⟩ := exists_of_tokens_pos hpos
      cases hdc
      exact Or.inl hd
  -- the request was made and is not answered: it waits, or one trunk has it
  · have h₁ := requests_kept h x
    obtain ⟨hlt, _⟩ := List.getElem?_eq_some_iff.mp hp
    rw [(hq.tokens x).2, Shared.placed, ha, Shared.made, if_pos hlt] at h₁
    rcases Nat.eq_zero_or_pos (tokens some x s.shared.waits) with h₀ | hpos
    · obtain ⟨c, hc, huniq⟩ := existsUnique_of_calls (show tokens id x s.shared.calls = 1 by omega)
      exact Or.inr ⟨c, recordedOn_of_callOn h hp hc, fun d hd => huniq d hd.1⟩
    · obtain ⟨d, hd, hdx⟩ := exists_of_tokens_pos hpos
      cases hdx
      exact Or.inl hd

/-- Two calls on a card with one channel: the first is recorded, the second
finds no channel and waits. Nothing is lost. -/
theorem nothingLost_twoCalls :
    NothingLost oneChannel (after oneChannel keeps (fun _ => true)
      [.env (.call 7 [1] [] [] true), .run 2 0, .run 2 0, .run 2 0, .run 2 0, .run 2 0,
       .env (.call 8 [2] [] [] true), .run 3 0, .run 3 0]) :=
  nothingLost_of_keeps (reachable_after (by decide)) (by unfold Quiescent; decide)

end CiaServer.Cti
