import CiaServer.Interleave.Noted
import CiaServer.Cti.Progress

/-!
# Everything is accounted for

A channel is free, on a trunk, in the hands of a thread, or dropped; and so for
requests. What is dropped is noted as it happens: a `cti_callout` that finds the
trunk it has dialled locked drops its channel and its request, and a retry wait
that ends with an error drops its request. `voiceCard_accounts`: over every run
the books balance exactly. So a channel that is dropped never comes back, and
the number the server publishes as idle is what is left of the card.
-/

namespace CiaServer.Cti

open Interleave

variable {cfg : Config} {s : Conf Shared Pc}

/-! ## What a move drops -/

/-- The channel a move drops. -/
def droppedChannel (s : Conf Shared Pc) : Move Action Int → Option Nat
  | .run i _ => s.threads[i]?.bind (Pc.lostChannel s.shared)
  | .env _ => none

/-- The request a move drops. -/
def droppedRequest (s : Conf Shared Pc) : Move Action Int → Option Nat
  | .run i _ => s.threads[i]?.bind (Pc.lostRequest s.shared)
  | .env a => a.lostRequest

/-- A channel that a thread has is one of the card's. -/
theorem Pc.target_of_channel {pc : Pc} {c : Nat} (h : pc.channel = some c) :
    pc.target = some c := by
  unfold Pc.channel at h
  split at h
  · exact h
  · unfold Pc.allotted at h
    split at h <;> first | exact h | cases h

/-! ## One move -/

/-- A channel: in the queue, on a trunk, or with a thread. -/
def kept (c : Nat) (s : Conf Shared Pc) : Nat :=
  s.shared.chan c + tokens Pc.channel c s.threads

/-- A request: waiting, recorded, answered, or with a thread. -/
def cared (x : Nat) (s : Conf Shared Pc) : Nat :=
  s.shared.placed x + tokens Pc.request x s.threads

theorem bind_threads {i : Nat} {pc : Pc} {f : Pc → Option Nat} (h : s.threads[i]? = some pc) :
    s.threads[i]?.bind f = f pc := by
  rw [h]
  rfl

theorem kept_step (hr : Reachable cfg s) {m : Move Action Int} {s' : Conf Shared Pc} (c : Nat)
    (h : (voiceCard cfg).step s m = some s') :
    kept c s' + (if droppedChannel s m = some c then 1 else 0) = kept c s := by
  rcases Program.step_cases h with ⟨a, sh, new, rfl, he, rfl⟩ | ⟨i, r, l, sh, l', rfl, hl, he, rfl⟩
  · obtain ⟨h₁, h₂⟩ := env_chan (env_step he).2 c
    rw [kept, kept, tokens_append, droppedChannel, if_neg nofun]
    dsimp only
    omega
  · have hR := reachable_rangeInv hr
    have hC := reachable_chanInv hr
    have hmem := List.mem_of_getElem? hl
    have h₁ := tokens_set Pc.channel c hl l'
    have h₂ := thread_chan (exec_step he).2 hR.queues (hR.threads l hmem)
      (fun x d hd => busy_of_fill hC (hd ▸ hmem)) c
    rw [kept, kept, droppedChannel, bind_threads hl]
    rw [tok, tok, tok] at h₂
    rw [tok, tok] at h₁
    dsimp only
    omega

theorem cared_step (hr : Reachable cfg s) {m : Move Action Int} {s' : Conf Shared Pc} (x : Nat)
    (h : (voiceCard cfg).step s m = some s') :
    cared x s' + (if droppedRequest s m = some x then 1 else 0) + s.shared.made x
      = cared x s + s'.shared.made x := by
  rcases Program.step_cases h with ⟨a, sh, new, rfl, he, rfl⟩ | ⟨i, r, l, sh, l', rfl, hl, he, rfl⟩
  · have h₁ := env_req (env_step he).2 x
    rw [tok] at h₁
    rw [cared, cared, tokens_append, droppedRequest]
    dsimp only
    omega
  · have hR := reachable_rangeInv hr
    have hC := reachable_chanInv hr
    have hmem := List.mem_of_getElem? hl
    have hmade : sh.made x = s.shared.made x := thread_made (exec_step he).2 x
    have h₁ := tokens_set Pc.request x hl l'
    have h₂ := thread_req (exec_step he).2 hR.queues (hR.threads l hmem) (reachable_callInv hr)
      (fun y d hd => busy_of_fill hC (hd ▸ hmem)) x
    rw [cared, cared, droppedRequest, bind_threads hl]
    rw [tok, tok, tok] at h₂
    rw [tok, tok] at h₁
    dsimp only
    omega

/-! ## The books -/

/-- The channels that a run from the start drops. -/
def channelsDropped (cfg : Config) (echo : Nat → Bool) (ms : List (Move Action Int)) : List Nat :=
  noted (voiceCard cfg).step droppedChannel (initial cfg echo) ms

/-- The requests that it drops. -/
def requestsDropped (cfg : Config) (echo : Nat → Bool) (ms : List (Move Action Int)) : List Nat :=
  noted (voiceCard cfg).step droppedRequest (initial cfg echo) ms

/-- The books of the card after the run `ms`. -/
structure Accounts (cfg : Config) (echo : Nat → Bool) (ms : List (Move Action Int))
    (s : Conf Shared Pc) : Prop where
  /-- Every channel is in one place. -/
  channel : ∀ c < cfg.numChannelCount,
    s.shared.channelQueue.count c + s.shared.busy c + tokens Pc.channel c s.threads
      + (channelsDropped cfg echo ms).count c = 1
  /-- The idle ones, those on trunks, those with threads and those dropped are all. -/
  channels : s.shared.getIdolChannelNumber
    + s.shared.trunkVector.countP (fun t => t.clientSocket.isSome)
    + s.threads.countP (fun pc => pc.channel.isSome) + (channelsDropped cfg echo ms).length
      = cfg.numChannelCount
  /-- Every request is in one place. -/
  request : ∀ x < s.shared.params.length,
    s.shared.placed x + tokens Pc.request x s.threads + (requestsDropped cfg echo ms).count x = 1
  /-- What is dropped is gone for good. -/
  forGood : ∀ c ∈ channelsDropped cfg echo ms,
    c ∉ s.shared.channelQueue ∧ s.shared.busy c = 0 ∧ ∀ pc ∈ s.threads, pc.channel ≠ some c

theorem reachable_initial (cfg : Config) (echo : Nat → Bool) : Reachable cfg (initial cfg echo) :=
  ⟨echo, Relation.ReflTransGen.refl⟩

section
variable {echo : Nat → Bool} {ms : List (Move Action Int)}

theorem channel_balance (h : (voiceCard cfg).run (fun _ _ => true) (initial cfg echo) ms = some s)
    (c : Nat) : kept c s + (channelsDropped cfg echo ms).count c
      = if c < cfg.numChannelCount then 1 else 0 := by
  rw [Program.run_true] at h
  have hbal := noted_balance (g := droppedChannel) (Reachable cfg) (kept c) (fun _ => 0) c
    (fun _ _ _ hr hst => hr.step hst) (fun _ _ _ hr hst => kept_step hr c hst)
    (reachable_initial cfg echo) h
  exact hbal.trans (initial_chan cfg echo c)

theorem request_balance (h : (voiceCard cfg).run (fun _ _ => true) (initial cfg echo) ms = some s)
    (x : Nat) : cared x s + (requestsDropped cfg echo ms).count x = s.shared.made x := by
  rw [Program.run_true] at h
  -- at the start there is no request
  have hle : cared x (initial cfg echo) ≤ 0 := reachable_requestInv (reachable_initial cfg echo) x
  have hbal : cared x s + (requestsDropped cfg echo ms).count x + 0
      = cared x (initial cfg echo) + s.shared.made x :=
    noted_balance (g := droppedRequest) (Reachable cfg) (cared x) (fun s => s.shared.made x) x
      (fun _ _ _ hr hst => hr.step hst) (fun _ _ _ hr hst => cared_step hr x hst)
      (reachable_initial cfg echo) h
  omega

theorem run_reachable (h : (voiceCard cfg).run (fun _ _ => true) (initial cfg echo) ms = some s) :
    Reachable cfg s :=
  ⟨echo, (Program.reach_of_run h).mono fun _ _ _ => trivial⟩

theorem bit_eq_any (sh : Shared) (g : Trunk → Bool) (c : Nat) :
    sh.bit g c = (sh.trunkVector[c]?.any g).toNat := by
  unfold Shared.bit
  split
  · next ht => rw [ht]; rfl
  · next ht => rw [ht]; rfl

/-- **Everything is accounted for**, after every run. -/
theorem voiceCard_accounts
    (h : (voiceCard cfg).run (fun _ _ => true) (initial cfg echo) ms = some s) :
    Accounts cfg echo ms s := by
  have hbal := channel_balance h
  have hR := reachable_rangeInv (run_reachable h)
  have hdropped : ∀ d ∈ channelsDropped cfg echo ms, d < cfg.numChannelCount := by
    intro d hd
    by_contra hge
    have hd' := List.count_pos_iff.mpr hd
    have hzero := hbal d
    rw [if_neg hge] at hzero
    omega
  have hchannel : ∀ c < cfg.numChannelCount,
      s.shared.channelQueue.count c + s.shared.busy c + tokens Pc.channel c s.threads
        + (channelsDropped cfg echo ms).count c = 1 := by
    intro c hc
    have hone := hbal c
    rw [if_pos hc, kept, Shared.chan, tokens_some_eq_count] at hone
    omega
  refine ⟨hchannel, ?_, ?_, ?_⟩
  · have hsum := Finset.sum_congr rfl fun c hc => hchannel c (Finset.mem_range.mp hc)
    have hbusy : ∑ c ∈ Finset.range cfg.numChannelCount, s.shared.busy c
        = s.shared.trunkVector.countP fun t => t.clientSocket.isSome := by
      rw [← sum_entries, hR.queues.trunks]
      exact Finset.sum_congr rfl fun c _ => bit_eq_any ..
    have hthreads : ∀ pc ∈ s.threads, ∀ c, pc.channel = some c → c < cfg.numChannelCount :=
      fun pc hpc c hc => hR.threads pc hpc c (Pc.target_of_channel hc)
    rw [Finset.sum_add_distrib, Finset.sum_add_distrib, Finset.sum_add_distrib,
      sum_count hR.queues.free, hbusy, sum_tokens hthreads, sum_count hdropped,
      ← Finset.card_eq_sum_ones, Finset.card_range] at hsum
    exact hsum
  · intro x hx
    have hone := request_balance h x
    rw [Shared.made, if_pos hx, cared] at hone
    exact hone
  · intro c hc
    have hpos := List.count_pos_iff.mpr hc
    have hone := hbal c
    rw [if_pos (hdropped c hc), kept, Shared.chan, tokens_some_eq_count] at hone
    refine ⟨fun hq => ?_, by omega, fun pc hpc he => ?_⟩
    · have := List.count_pos_iff.mpr hq
      omega
    · have := one_le_tokens hpc he
      omega

end

/-- The run in which a second call dials the channel of the first before its trunk is
unlocked. -/
theorem voiceCard_accounts_losing :
    Accounts oneChannel (fun _ => true) losingMoves
      (after oneChannel anyMove (fun _ => true) losingMoves) :=
  voiceCard_accounts (Program.run_eq_some_after (by decide))

/-- It is left without a channel and with an unanswered request. -/
example : channelsDropped oneChannel (fun _ => true) losingMoves = [0] ∧
    requestsDropped oneChannel (fun _ => true) losingMoves = [1] := by decide

end CiaServer.Cti
