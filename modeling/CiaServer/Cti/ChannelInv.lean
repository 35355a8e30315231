import CiaServer.Cti.LockInv

/-!
# Where a channel is

A channel number passes from the free queue into a local variable of
`cti_callout`, from there onto a trunk (or back into the queue), from the
trunk into `cti_hangUp` and back into the queue. `ChanInv` counts these four
places and says the sum is at most one, for every channel, in every reachable
state: no channel is ever given to two calls.

The count is *conserved* by every step but one: a `cti_callout` that finds the
trunk it has dialled locked drops its channel (`lostChannel`). So the sum is
at most one always, and exactly one as long as that has not happened.
-/

namespace CiaServer.Cti

open Interleave

/-- The channel a `cti_callout` has taken and neither put back, recorded on
its trunk, nor given up. -/
def Pc.allotted : Pc → Option Nat
  | .callout _ (.dial c) => some c
  | .callout _ (.lock c) => some c
  | .callout _ (.fill c) => some c
  | .callout _ (.put c) => some c
  | _ => none

/-- The channel a thread has in its hands: `allotted`, or released by
`cti_hangUp` and not yet put back. -/
def Pc.channel : Pc → Option Nat
  | .hangUp _ c _ (.put _) => some c
  | pc => pc.allotted

/-- A channel in the free queue or with a client on its trunk. -/
def Shared.chan (sh : Shared) (c : Nat) : Nat := tokens some c sh.channelQueue + sh.busy c

/-- The channel a step drops: `cti_callout` has dialled it and finds its trunk
locked. -/
def Pc.lostChannel (sh : Shared) : Pc → Option Nat
  | .callout _ (.lock c) => if sh.lockBit c = 1 then some c else none
  | _ => none

/-- No channel is in two places. -/
def ChanInv (sh : Shared) (ts : List Pc) : Prop :=
  ∀ c, sh.chan c + tokens Pc.channel c ts ≤ 1

/-! ## What leaves calls and free channels alone -/

/-- The part of a trunk that `cti_callout` and `realseTrunk` write for the
call on it. -/
def Trunk.call (t : Trunk) : Option Client × Bytes × Bytes × Bytes :=
  (t.clientSocket, t.transId, t.callerId, t.calledId)

/-- Nothing has changed but locks, steps, flags, the sleep queue and the
`crashed` mark. -/
structure SameCalls (sh sh' : Shared) : Prop where
  queue : sh'.channelQueue = sh.channelQueue
  trunks : sh'.trunkVector.map Trunk.call = sh.trunkVector.map Trunk.call
  params : sh'.params = sh.params
  waits : sh'.waits = sh.waits
  now : sh'.now = sh.now
  calls : sh'.calls = sh.calls
  log : sh'.log = sh.log

theorem SameCalls.refl (sh : Shared) : SameCalls sh sh := ⟨rfl, rfl, rfl, rfl, rfl, rfl, rfl⟩

theorem map_modify_of_eq {α β : Type} {g : α → β} {f : α → α} (h : ∀ a, g (f a) = g a)
    (l : List α) (i : Nat) : (l.modify i f).map g = l.map g := by
  refine List.ext_getElem? fun j => ?_
  rw [List.getElem?_map, List.getElem?_map, List.getElem?_modify]
  cases l[j]? with
  | none => rfl
  | some a =>
    show some (g (if i = j then f a else a)) = some (g a)
    split
    · rw [h]
    · rfl

theorem SameCalls.modifyTrunk {f : Trunk → Trunk} (h : ∀ t, (f t).call = t.call) (sh : Shared)
    (c : Nat) : SameCalls sh (sh.modifyTrunk c f) :=
  ⟨rfl, map_modify_of_eq h _ _, rfl, rfl, rfl, rfl, rfl⟩

theorem SameCalls.setMutex (sh : Shared) (c : Nat) (b : Bool) :
    SameCalls sh (sh.modifyTrunk c (.setMutex b)) := .modifyTrunk (by intro t; rfl) sh c

/-- The call on a trunk is still the same one. -/
theorem SameCalls.trunk {sh sh' : Shared} (h : SameCalls sh sh') {c : Nat} {t' : Trunk}
    (ht' : sh'.trunkVector[c]? = some t') :
    ∃ t, sh.trunkVector[c]? = some t ∧ t'.call = t.call := by
  have h₁ := congrArg (·[c]?) h.trunks
  simp only [List.getElem?_map, ht', Option.map_some] at h₁
  cases ht : sh.trunkVector[c]? with
  | none => rw [ht] at h₁; cases h₁
  | some t =>
    rw [ht] at h₁
    exact ⟨t, rfl, Option.some.inj h₁⟩

theorem SameCalls.busy {sh sh' : Shared} (h : SameCalls sh sh') (c : Nat) :
    sh'.busy c = sh.busy c := by
  have h₁ := congrArg (·[c]?) h.trunks
  simp only [List.getElem?_map] at h₁
  unfold Shared.busy Shared.bit
  cases ht' : sh'.trunkVector[c]? with
  | none =>
    cases ht : sh.trunkVector[c]? with
    | none => rfl
    | some t => rw [ht, ht'] at h₁; cases h₁
  | some t' =>
    obtain ⟨t, ht, hc⟩ := h.trunk ht'
    have hs : t'.clientSocket = t.clientSocket := congrArg Prod.fst hc
    simp only [ht, hs]

theorem SameCalls.chan {sh sh' : Shared} (h : SameCalls sh sh') (c : Nat) :
    sh'.chan c = sh.chan c := by
  rw [Shared.chan, Shared.chan, h.queue, h.busy]

theorem autoDial_sameCalls {cfg : Config} {sh sh' : Shared} {c : Nat} {p : AutoDialPc} {pc' : Pc}
    (h : AutoDialStep cfg sh c p sh' pc') : SameCalls sh sh' := by
  cases h with
  | locked => exact .setMutex ..
  | unlocked => exact .setMutex ..
  | slept => exact .modifyTrunk (by intro t; rfl) _ _
  | _ => exact ⟨rfl, rfl, rfl, rfl, rfl, rfl, rfl⟩

theorem timeoutCheck_sameCalls {cfg : Config} {sh sh' : Shared} {p : TimeoutPc} {pc' : Pc}
    (h : TimeoutStep cfg sh p sh' pc') : SameCalls sh sh' := by
  cases h with
  | locked => exact .setMutex ..
  | unlocked => exact .setMutex ..
  | flagged => exact .modifyTrunk (by intro t; rfl) _ _
  | _ => exact .refl _

theorem strategy_sameCalls {cfg : Config} {sh sh' : Shared} {p : StrategyPc} {pc' : Pc}
    (h : StrategyStep cfg sh p sh' pc') : SameCalls sh sh' := by
  cases h with
  | locked => exact .setMutex ..
  | unlocked => exact .setMutex ..
  | hungup => exact .modifyTrunk (by intro t; rfl) _ _
  | _ => exact ⟨rfl, rfl, rfl, rfl, rfl, rfl, rfl⟩

/-- The threads that neither dial nor hang up hold no channel, and go on to
none that does. -/
theorem autoDial_next {cfg : Config} {sh sh' : Shared} {c : Nat} {p : AutoDialPc} {pc' : Pc}
    (h : AutoDialStep cfg sh c p sh' pc') : pc'.channel = none :=
  autoDial_none h (fun _ => rfl) (fun _ => rfl) rfl

theorem timeoutCheck_next {cfg : Config} {sh sh' : Shared} {p : TimeoutPc} {pc' : Pc}
    (h : TimeoutStep cfg sh p sh' pc') : pc'.channel = none := by
  cases h <;> rfl

theorem strategy_next {cfg : Config} {sh sh' : Shared} {p : StrategyPc} {pc' : Pc}
    (h : StrategyStep cfg sh p sh' pc') : pc'.channel = none := by
  cases h <;> rfl

theorem resume_channel (k : Caller) : k.resume.channel = none := by
  cases k <;> rfl

/-! ## An idle trunk has no client -/

/-- Every trunk that is idle has no client: the two are written together. -/
def IdleInv (sh : Shared) : Prop :=
  ∀ (c : Nat) (t : Trunk), sh.trunkVector[c]? = some t → t.step = .idle → t.clientSocket = none

theorem IdleInv.modify {sh sh' : Shared} (hI : IdleInv sh) {d : Nat} {f : Trunk → Trunk}
    (h : sh'.trunkVector = sh.trunkVector.modify d f)
    (hf : ∀ t, (t.step = .idle → t.clientSocket = none) →
      (f t).step = .idle → (f t).clientSocket = none) : IdleInv sh' := by
  intro c t' ht'
  rw [show sh'.trunkVector = (sh.modifyTrunk d f).trunkVector from h, getElem?_modifyTrunk] at ht'
  by_cases hd : d = c
  · rw [if_pos hd] at ht'
    cases ht : sh.trunkVector[c]? with
    | none => rw [ht] at ht'; cases ht'
    | some t =>
      rw [ht] at ht'
      cases ht'
      exact hf t (hI c t ht)
  · rw [if_neg hd] at ht'
    exact hI c t' ht'

theorem IdleInv.congr {sh sh' : Shared} (hI : IdleInv sh) (h : sh'.trunkVector = sh.trunkVector) :
    IdleInv sh' := by
  intro c t ht
  rw [h] at ht
  exact hI c t ht

theorem thread_idle {cfg : Config} {sh sh' : Shared} {i : Nat} {pc pc' : Pc}
    (h : ThreadStep cfg sh i pc sh' pc') (hI : IdleInv sh) : IdleInv sh' := by
  cases thread_write h with
  | nothing ht => exact hI.congr ht
  | mutex ht => exact hI.modify ht fun _ hn => hn
  | filled _ ht => exact hI.modify ht fun _ _ hs => nomatch hs
  | released ht => exact hI.modify ht fun _ _ _ => rfl
  | slept ht => exact hI.modify ht fun _ _ hs => nomatch hs
  | flagged ht => exact hI.modify ht fun _ hn => hn
  | hungup ht => exact hI.modify ht fun _ _ hs => nomatch hs

/-- **An idle trunk has no client**, in every reachable state. -/
theorem reachable_idleInv {cfg : Config} {ok : Conf Shared Pc → Move Action Int → Prop}
    {s : Conf Shared Pc} (h : ReachableBy cfg ok s) : IdleInv s.shared := by
  obtain ⟨echo, h⟩ := h
  refine Program.Reach.rule (I := fun sh _ => IdleInv sh) ?_ ?_ ?_ h
  · intro c t ht _
    obtain ⟨i, rfl⟩ := initial_trunk ht
    rfl
  · intro sh ts a sh' new _ hI _ henv
    exact hI.congr (env_trunks (env_step henv).2).1
  · intro sh ts i l r sh' l' _ hI _ _ hex
    exact thread_idle (exec_step hex).2 hI

/-! ## The conservation law -/

theorem busy_fill {sh sh' : Shared} {d : Nat} {t : Trunk} {p : CallOutParam} {now : Nat}
    (h : sh'.trunkVector = sh.trunkVector.modify d (.fill p now))
    (ht : sh.trunkVector[d]? = some t) (hfree : sh.busy d = 0) (c : Nat) :
    sh'.busy c = sh.busy c + if some d = some c then 1 else 0 := by
  unfold Shared.busy at hfree ⊢
  rw [show sh'.bit _ c = (sh.modifyTrunk d (.fill p now)).bit _ c from bit_congr h _ c]
  by_cases hd : d = c
  · subst hd
    rw [bit_modify_self ht, hfree, if_pos rfl]
    rfl
  · rw [bit_modify_ne hd, if_neg (by simpa using hd)]
    rfl

theorem busy_realse {sh sh' : Shared} {d now : Nat} {t : Trunk}
    (h : sh'.trunkVector = sh.trunkVector.modify d (.realseTrunk now))
    (ht : sh.trunkVector[d]? = some t) (hbusy : t.clientSocket.isSome = true) (c : Nat) :
    sh'.busy c + (if some d = some c then 1 else 0) = sh.busy c := by
  unfold Shared.busy
  rw [show sh'.bit _ c = (sh.modifyTrunk d (.realseTrunk now)).bit _ c from bit_congr h _ c]
  by_cases hd : d = c
  · subst hd
    rw [bit_modify_self ht, bit_of_trunk ht, hbusy, if_pos rfl]
    rfl
  · rw [bit_modify_ne hd, if_neg (by simpa using hd)]
    rfl

theorem tokens_put (q : List Nat) (d c : Nat) :
    tokens some c (q ++ [d]) = tokens some c q + if some d = some c then 1 else 0 := by
  rw [tokens_append, tokens_cons, tokens_nil]
  rfl

/-- What a thread drops when its `try_lock` fails is lost if the trunk is locked. -/
theorem tok_lost_locked {sh : Shared} {lost : Pc → Option Nat} {pc : Pc} {d n : Nat} {t : Trunk}
    (hlost : lost pc = if sh.lockBit d = 1 then some n else none)
    (ht : sh.trunkVector[d]? = some t) (hm : t.trunkMutex = true) (k : Nat) :
    tok lost k pc = if some n = some k then 1 else 0 := by
  have hbit : sh.lockBit d = 1 := by
    rw [Shared.lockBit, bit_of_trunk ht, hm]
    rfl
  rw [tok, hlost, if_pos hbit]

/-- It is not if the trunk is free. -/
theorem tok_lost_free {sh : Shared} {lost : Pc → Option Nat} {pc : Pc} {d n : Nat} {t : Trunk}
    (hlost : lost pc = if sh.lockBit d = 1 then some n else none)
    (ht : sh.trunkVector[d]? = some t) (hm : t.trunkMutex = false) (k : Nat) :
    tok lost k pc = 0 := by
  have hbit : ¬sh.lockBit d = 1 := by
    rw [Shared.lockBit, bit_of_trunk ht, hm]
    exact nofun
  apply tok_of_none
  rw [hlost, if_neg hbit]

/-- `cti_callout` keeps the count, but for the channel it may drop. -/
theorem callout_chan {cfg : Config} {sh sh' : Shared} {x : Nat} {p : CalloutPc} {pc' : Pc}
    (h : CalloutStep sh x p sh' pc') (hR : QueueRange cfg sh) (hpc : InRange cfg (.callout x p))
    (hfree : ∀ c, p = .fill c → sh.busy c = 0) (c : Nat) :
    sh'.chan c + tok Pc.channel c pc' + tok (Pc.lostChannel sh) c (.callout x p)
      = sh.chan c + tok Pc.channel c (.callout x p) := by
  cases h with
  | @took d rest hq =>
    unfold Shared.chan
    rw [hq, tokens_cons]
    show tokens some c rest + sh.busy c + tok some c d + 0 = _ + 0
    omega
  -- the number came from the queue, so `at` finds the trunk
  | noTrunk ht =>
    obtain ⟨t, ht'⟩ := hR.exists_trunk (hpc _ rfl)
    rw [ht'] at ht
    cases ht
  -- the branch that only logs: the thread's token goes nowhere else
  | @gaveUp d t ht hm =>
    have hlost : tok (Pc.lostChannel sh) c (.callout x (.lock d)) = if some d = some c then 1 else 0 :=
      tok_lost_locked rfl ht hm c
    rw [hlost]
    rfl
  | @locked d t ht hm =>
    have hlost : tok (Pc.lostChannel sh) c (.callout x (.lock d)) = 0 := tok_lost_free rfl ht hm c
    rw [hlost, (SameCalls.setMutex sh d true).chan]
    rfl
  | unlocked => rw [(SameCalls.setMutex sh _ false).chan]; rfl
  -- the trunk has no client yet, so filling it adds the token the thread gives up
  | @filled d q hq =>
    obtain ⟨t, ht⟩ := hR.exists_trunk (hpc _ rfl)
    unfold Shared.chan
    rw [busy_fill rfl ht (hfree d rfl)]
    show tokens some c sh.channelQueue + (sh.busy c + _) + 0 + 0 = _ + (if some d = some c then 1 else 0)
    omega
  | @putBack d =>
    unfold Shared.chan
    rw [tokens_put]
    show _ + _ + sh.busy c + 0 + 0 = _ + (if some d = some c then 1 else 0)
    omega
  | _ => rfl

/-- `cti_hangUp` keeps the count: what it releases is what was on the trunk,
and what it puts back is what it released. -/
theorem hangUp_chan {sh sh' : Shared} {k : Caller} {d : Nat} {status : Bytes} {p : HangUpPc}
    {pc' : Pc} (h : HangUpStep sh k d status p sh' pc') (c : Nat) :
    sh'.chan c + tok Pc.channel c pc' = sh.chan c + tok Pc.channel c (.hangUp k d status p) := by
  cases h with
  | noTrunk => cases k <;> rfl
  | lockBusy => rw [tok_of_none (resume_channel k)]; rfl
  | locked => rw [(SameCalls.setMutex sh d true).chan]; rfl
  -- the client was there, so releasing the trunk passes its token to the thread
  | answered ht hn =>
    show tokens some c sh.channelQueue + Shared.busy _ c + (if some d = some c then 1 else 0)
      = tokens some c sh.channelQueue + sh.busy c
    exact (Nat.add_assoc ..).trans
      (congrArg (_ + ·) (busy_realse rfl ht (by rw [hn]; rfl) c))
  | putBack =>
    unfold Shared.chan
    rw [tokens_put]
    show _ + _ + sh.busy c + 0 = _ + (if some d = some c then 1 else 0)
    omega
  | unlocked =>
    rw [tok_of_none (resume_channel k), (SameCalls.setMutex sh d false).chan]
    rfl
  | _ => rfl

/-- One step of any thread keeps the count, but for the channel it may drop. -/
theorem thread_chan {cfg : Config} {sh sh' : Shared} {i : Nat} {pc pc' : Pc}
    (h : ThreadStep cfg sh i pc sh' pc') (hR : QueueRange cfg sh) (hpc : InRange cfg pc)
    (hfree : ∀ x c, pc = .callout x (.fill c) → sh.busy c = 0) (c : Nat) :
    sh'.chan c + tok Pc.channel c pc' + tok (Pc.lostChannel sh) c pc
      = sh.chan c + tok Pc.channel c pc := by
  cases h with
  | callout h => exact callout_chan h hR hpc (fun d hd => hfree _ d (by rw [hd])) c
  | hangUp h => exact hangUp_chan h c
  | autoDial h =>
    rw [(autoDial_sameCalls h).chan, tok_of_none (autoDial_next h)]
    rfl
  | timeoutCheck h =>
    rw [(timeoutCheck_sameCalls h).chan, tok_of_none (timeoutCheck_next h)]
    rfl
  | strategy h =>
    rw [(strategy_sameCalls h).chan, tok_of_none (strategy_next h)]
    rfl
  | ret => rfl

theorem env_chan {sh sh' : Shared} {i : Nat} {a : Action} {new : List Pc}
    (h : EnvStep sh i a sh' new) (c : Nat) :
    sh'.chan c = sh.chan c ∧ tokens Pc.channel c new = 0 := by
  cases h <;> exact ⟨rfl, rfl⟩

theorem initial_chan (cfg : Config) (echo : Nat → Bool) (c : Nat) :
    (initial cfg echo).shared.chan c + tokens Pc.channel c (initial cfg echo).threads
      = if c < cfg.numChannelCount then 1 else 0 := by
  have hts : tokens Pc.channel c (initial cfg echo).threads = 0 := tokens_initial_threads rfl rfl c
  have hb : (initial cfg echo).shared.busy c = 0 := by
    unfold Shared.busy Shared.bit
    split
    · next t ht =>
      obtain ⟨i, rfl⟩ := initial_trunk ht
      rfl
    · rfl
  rw [hts, Shared.chan, hb, tokens_some_eq_count]
  exact List.count_range

variable {cfg : Config} {ok : Conf Shared Pc → Move Action Int → Prop} {s : Conf Shared Pc}

/-- A callout that is about to fill in a trunk finds no client on it. -/
theorem busy_of_fill {sh : Shared} {ts : List Pc} (hC : ChanInv sh ts) {x c : Nat}
    (hpc : Pc.callout x (.fill c) ∈ ts) : sh.busy c = 0 := by
  have h₁ : 1 ≤ tokens Pc.channel c ts := one_le_tokens hpc rfl
  have h₂ := hC c
  unfold Shared.chan at h₂
  omega

/-- **No channel is in two places**, in every reachable state. -/
theorem reachable_chanInv (h : ReachableBy cfg ok s) : ChanInv s.shared s.threads := by
  obtain ⟨echo, h⟩ := h
  refine Program.Reach.rule ?_ ?_ ?_ h
  · intro c
    rw [initial_chan]
    split <;> omega
  · intro sh ts a sh' new _ hC _ henv c
    obtain ⟨hc, hn⟩ := env_chan (env_step henv).2 c
    rw [tokens_append, hn, hc]
    exact hC c
  · intro sh ts i l r sh' l' hreach hC _ hl hex c
    have hR := reachable_rangeInv ⟨echo, hreach⟩
    have hmem := List.mem_of_getElem? hl
    have h₁ := tokens_set Pc.channel c hl l'
    -- the invariant itself says that a trunk about to be filled is free
    have h₂ := thread_chan (exec_step hex).2 hR.queues (hR.threads l hmem)
      (fun x d hd => busy_of_fill hC (hd ▸ hmem)) c
    have h₃ := hC c
    omega

theorem Pc.channel_of_allotted {pc : Pc} {c : Nat} (h : pc.allotted = some c) :
    pc.channel = some c := by
  unfold Pc.channel
  split
  · cases h
  · exact h

/-- The channels allotted are among those in hand. -/
theorem allotted_le_channel (c : Nat) (ts : List Pc) :
    tokens Pc.allotted c ts ≤ tokens Pc.channel c ts := by
  induction ts with
  | nil => exact Nat.le_refl _
  | cons pc ts ih =>
    rw [tokens_cons, tokens_cons]
    by_cases h : pc.allotted = some c
    · rw [tok_of_eq h, tok_of_eq (Pc.channel_of_allotted h)]
      omega
    · rw [tok_of_ne h]
      omega

/-- Every channel has at most one holder, every queued number is a channel of
the card, and no more channels are idle than the card has. -/
structure ExclusiveChannels (cfg : Config) (s : Conf Shared Pc) : Prop where
  holders : ∀ c, s.shared.channelQueue.count c + tokens Pc.allotted c s.threads
    + s.shared.busy c ≤ 1
  free : ∀ c ∈ s.shared.channelQueue, c < cfg.numChannelCount
  sleeping : ∀ c ∈ s.shared.sleepChannelQueue, c < cfg.numChannelCount
  idol : s.shared.getIdolChannelNumber ≤ cfg.numChannelCount

/-- **Exclusive channel allocation.** Under any interleaving, a channel is at
most once in the free queue, in the hands of a `cti_callout`, or on a trunk. -/
theorem exclusiveChannels (h : Reachable cfg s) : ExclusiveChannels cfg s := by
  have hR := reachable_rangeInv h
  have hC := reachable_chanInv h
  refine ⟨?_, hR.queues.free, hR.queues.sleeping, ?_⟩
  · intro c
    have h₁ := hC c
    have h₂ := allotted_le_channel c s.threads
    rw [Shared.chan, tokens_some_eq_count] at h₁
    omega
  · refine length_le_of_tokens hR.queues.free fun c => ?_
    have := hC c
    unfold Shared.chan at this
    omega

/-- A call that has taken the only channel and dialled it. -/
theorem exclusiveChannels_dialled :
    ExclusiveChannels oneChannel (after oneChannel anyMove (fun _ => true)
      [.env (.call 7 [1] [] [] true), .run 2 0, .run 2 0]) :=
  exclusiveChannels (reachable_after (by decide)).reachable

end CiaServer.Cti
