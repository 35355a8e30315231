import CiaServer.Cti.ChannelInv

/-!
# Where a request is

A call request is with a `cti_callout`, or waits on its retry timer, or is
recorded on a trunk, or has been answered. `RequestInv` counts these four
places; the sum is at most one for every request in every reachable state, so
a request is answered at most once. `CallInv` ties the history variable
`calls` to the fields of the trunk: the client and the texts on a trunk are
those of the one request it was filled for, so the answer goes to the right
client with the right `transId`.

As with the channels, one step of one thread breaks the count: a `cti_callout`
that dials and finds its trunk locked forgets the request. A retry wait that
completes with an error forgets it too.
-/

namespace CiaServer.Cti

open Interleave

/-- The request a `cti_callout` still has to find a place for. -/
def Pc.request : Pc → Option Nat
  | .callout _ (.unlock _) => none
  | .callout x _ => some x
  | _ => none

/-- The request a response answers. -/
def Obs.answers : Obs → Option Nat
  | .response req _ => req
  | _ => none

/-- A request that waits, is recorded, or is answered. -/
def Shared.placed (sh : Shared) (x : Nat) : Nat :=
  tokens some x sh.waits + tokens id x sh.calls + tokens Obs.answers x sh.log

/-- The request a step forgets. -/
def Pc.lostRequest (sh : Shared) : Pc → Option Nat
  | .callout x (.lock c) => if sh.lockBit c = 1 then some x else none
  | _ => none

/-- `1` once request `x` has been made. -/
def Shared.made (sh : Shared) (x : Nat) : Nat := if x < sh.params.length then 1 else 0

/-- No request is in two places, and none that has not been made is in one. -/
def RequestInv (sh : Shared) (ts : List Pc) : Prop :=
  ∀ x, sh.placed x + tokens Pc.request x ts ≤ sh.made x

/-! ## The call on a trunk is a request's -/

/-- The part of a request that goes onto a trunk. -/
def CallOutParam.call (p : CallOutParam) : Option Client × Bytes × Bytes × Bytes :=
  (some p.baseClient, p.transId, p.authCode, p.pn)

/-- Trunk `c` carries the call of the request it was filled for, or none. -/
def CarriesCall (params : List CallOutParam) (t : Trunk) : Option Nat → Prop
  | none => t.clientSocket = none
  | some x => ∃ p, params[x]? = some p ∧ t.call = p.call

/-- Every trunk carries the call of the request it was filled for. -/
def CallInv (sh : Shared) : Prop :=
  ∀ c t, sh.trunkVector[c]? = some t → CarriesCall sh.params t (sh.callOn c)

/-- The requests are still there, with the same client and texts. -/
def SameRequests (ps ps' : List CallOutParam) : Prop :=
  ∀ (x : Nat) (p : CallOutParam), ps[x]? = some p →
    ∃ p' : CallOutParam, ps'[x]? = some p' ∧ p'.call = p.call

theorem SameRequests.refl (ps : List CallOutParam) : SameRequests ps ps :=
  fun _ p hp => ⟨p, hp, rfl⟩

theorem SameRequests.set {ps : List CallOutParam} {x : Nat} {p q : CallOutParam}
    (hp : ps[x]? = some p) (h : q.call = p.call) : SameRequests ps (ps.set x q) := by
  intro y r hr
  by_cases hxy : x = y
  · subst hxy
    rw [hp] at hr
    cases hr
    obtain ⟨hlt, _⟩ := List.getElem?_eq_some_iff.mp hp
    exact ⟨q, List.getElem?_set_self hlt, h⟩
  · exact ⟨r, by rw [List.getElem?_set_ne hxy]; exact hr, rfl⟩

theorem SameRequests.append (ps new : List CallOutParam) : SameRequests ps (ps ++ new) := by
  intro x p hp
  obtain ⟨hlt, _⟩ := List.getElem?_eq_some_iff.mp hp
  exact ⟨p, by rw [List.getElem?_append_left hlt]; exact hp, rfl⟩

theorem armTimer_call (p : CallOutParam) (now : Nat) : (p.armTimer now).call = p.call := by
  unfold CallOutParam.armTimer
  split <;> rfl

theorem CarriesCall.mono {ps ps' : List CallOutParam} (h : SameRequests ps ps') {t t' : Trunk}
    (ht : t'.call = t.call) {req : Option Nat} (hc : CarriesCall ps t req) :
    CarriesCall ps' t' req := by
  cases req with
  | none => exact (congrArg Prod.fst ht).trans hc
  | some x =>
    obtain ⟨p, hp, htp⟩ := hc
    obtain ⟨p', hp', hpp⟩ := h x p hp
    exact ⟨p', hp', ht.trans (htp.trans hpp.symm)⟩

theorem callOn_congr {sh sh' : Shared} (h : sh'.calls = sh.calls) (c : Nat) :
    sh'.callOn c = sh.callOn c := by
  rw [Shared.callOn, Shared.callOn, h]

theorem callOn_set {sh sh' : Shared} {d : Nat} {v : Option Nat} (h : sh'.calls = sh.calls.set d v)
    (hd : d < sh.calls.length) (c : Nat) :
    sh'.callOn c = if d = c then v else sh.callOn c := by
  unfold Shared.callOn
  rw [h]
  by_cases hdc : d = c
  · subst hdc
    rw [List.getElem?_set_self hd, if_pos rfl]
    rfl
  · rw [List.getElem?_set_ne hdc, if_neg hdc]

/-- A call found after writing the entry of trunk `d` was there before, or is the
one that was written. -/
theorem callOn_set_cases {sh sh' : Shared} {d c x : Nat} {v : Option Nat}
    (h : sh'.calls = sh.calls.set d v) (hx : sh'.callOn c = some x) :
    d ≠ c ∧ sh.callOn c = some x ∨ d = c ∧ v = some x := by
  by_cases hlt : d < sh.calls.length
  · rw [callOn_set h hlt] at hx
    split at hx
    · next hd => exact Or.inr ⟨hd, hx⟩
    · next hd => exact Or.inl ⟨hd, hx⟩
  · -- an entry that is not there is not written
    rw [Shared.callOn, h, List.set_eq_of_length_le (by omega)] at hx
    refine Or.inl ⟨?_, hx⟩
    rintro rfl
    rw [List.getElem?_eq_none (by omega)] at hx
    cases hx

/-- Only the calls of requests change: nothing about trunks and history. -/
theorem CallInv.of_params {sh sh' : Shared} (hC : CallInv sh)
    (ht : sh'.trunkVector = sh.trunkVector) (hc : sh'.calls = sh.calls)
    (hp : SameRequests sh.params sh'.params) : CallInv sh' := by
  intro c t h
  rw [ht] at h
  rw [callOn_congr hc]
  exact (hC c t h).mono hp rfl

/-- A write on trunk `d` that leaves the call on it alone. -/
theorem CallInv.modify {sh sh' : Shared} (hC : CallInv sh) {d : Nat} {f : Trunk → Trunk}
    (ht : sh'.trunkVector = sh.trunkVector.modify d f) (hc : sh'.calls = sh.calls)
    (hp : SameRequests sh.params sh'.params) (hf : ∀ t, (f t).call = t.call) : CallInv sh' := by
  intro c t' h'
  rw [callOn_congr hc]
  rw [show sh'.trunkVector = (sh.modifyTrunk d f).trunkVector from ht, getElem?_modifyTrunk] at h'
  split at h'
  · obtain ⟨t, ht₀, rfl⟩ := Option.map_eq_some_iff.mp h'
    exact (hC c t ht₀).mono hp (hf t)
  · exact (hC c t' h').mono hp rfl

/-- Writing trunk `d` and its history together keeps the tie. -/
theorem CallInv.write {sh sh' : Shared} (hC : CallInv sh) {d : Nat} {v : Option Nat}
    {f : Trunk → Trunk} (ht : sh'.trunkVector = sh.trunkVector.modify d f)
    (hc : sh'.calls = sh.calls.set d v) (hp : SameRequests sh.params sh'.params)
    (hd : d < sh.calls.length) (hv : ∀ t, CarriesCall sh.params (f t) v) : CallInv sh' := by
  intro c t' h'
  rw [callOn_set hc hd]
  rw [show sh'.trunkVector = (sh.modifyTrunk d f).trunkVector from ht, getElem?_modifyTrunk] at h'
  by_cases hdc : d = c
  · rw [if_pos hdc] at h' ⊢
    cases ht₀ : sh.trunkVector[c]? with
    | none => rw [ht₀] at h'; cases h'
    | some t =>
      rw [ht₀] at h'
      cases h'
      exact (hv t).mono hp rfl
  · rw [if_neg hdc] at h' ⊢
    exact (hC c t' h').mono hp rfl

theorem thread_params {cfg : Config} {sh sh' : Shared} {i : Nat} {pc pc' : Pc}
    (h : ThreadStep cfg sh i pc sh' pc') :
    sh'.params.length = sh.params.length ∧ SameRequests sh.params sh'.params := by
  cases h with
  | callout h =>
    cases h with
    | secondTry hp => exact ⟨List.length_set, .set hp rfl⟩
    | armed hp => exact ⟨List.length_set, .set hp (armTimer_call _ _)⟩
    | _ => exact ⟨rfl, .refl _⟩
  | @hangUp k _ _ _ _ _ h =>
    cases h with
    | noTrunk => cases k <;> exact ⟨rfl, .refl _⟩
    | _ => exact ⟨rfl, .refl _⟩
  | autoDial h => rw [(autoDial_sameCalls h).params]; exact ⟨rfl, .refl _⟩
  | timeoutCheck h => rw [(timeoutCheck_sameCalls h).params]; exact ⟨rfl, .refl _⟩
  | strategy h => rw [(strategy_sameCalls h).params]; exact ⟨rfl, .refl _⟩
  | ret => exact ⟨rfl, .refl _⟩

theorem thread_made {cfg : Config} {sh sh' : Shared} {i : Nat} {pc pc' : Pc}
    (h : ThreadStep cfg sh i pc sh' pc') (x : Nat) : sh'.made x = sh.made x := by
  rw [Shared.made, Shared.made, (thread_params h).1]

theorem thread_call {cfg : Config} {sh sh' : Shared} {i : Nat} {pc pc' : Pc}
    (h : ThreadStep cfg sh i pc sh' pc') (hR : QueueRange cfg sh) (hpc : InRange cfg pc)
    (hC : CallInv sh) : CallInv sh' := by
  have hp := (thread_params h).2
  cases thread_write h with
  | nothing ht hc => exact hC.of_params ht hc hp
  | mutex ht hc => exact hC.modify ht hc hp (by intro t; rfl)
  | @filled x c q hq ht hc =>
    exact hC.write ht hc hp (by rw [hR.calls]; exact hpc c rfl) fun _ => ⟨q, hq, rfl⟩
  | @released k c _ _ ht hc =>
    exact hC.write ht hc hp (by rw [hR.calls]; exact hpc c rfl) fun _ => rfl
  | slept ht hc => exact hC.modify ht hc hp (by intro t; rfl)
  | flagged ht hc => exact hC.modify ht hc hp (by intro t; rfl)
  | hungup ht hc => exact hC.modify ht hc hp (by intro t; rfl)

theorem env_call {sh sh' : Shared} {i : Nat} {a : Action} {new : List Pc}
    (h : EnvStep sh i a sh' new) (hC : CallInv sh) : CallInv sh' := by
  cases h with
  | call => exact hC.of_params rfl rfl (.append _ _)
  | _ => exact hC.of_params rfl rfl (.refl _)

variable {cfg : Config} {ok : Conf Shared Pc → Move Action Int → Prop} {s : Conf Shared Pc}

/-- **The call on a trunk is that of its request**, in every reachable state. -/
theorem reachable_callInv (h : ReachableBy cfg ok s) : CallInv s.shared := by
  obtain ⟨echo, h⟩ := h
  have key : ∀ {s}, (voiceCard cfg).Reach ok (initial cfg echo) s → CallInv s.shared := by
    intro s h
    refine Program.Reach.rule (I := fun sh _ => CallInv sh) ?_ ?_ ?_ h
    · intro c t ht
      obtain ⟨i, rfl⟩ := initial_trunk ht
      rw [initial_callOn c]
      rfl
    · intro sh ts a sh' new _ hC _ henv
      exact env_call (env_step henv).2 hC
    · intro sh ts i l r sh' l' hreach hC _ hl hex
      have hR := reachable_rangeInv ⟨echo, hreach⟩
      exact thread_call (exec_step hex).2 hR.queues (hR.threads l (List.mem_of_getElem? hl)) hC
  exact key h

/-- A trunk without a client has no request recorded on it. -/
theorem callOn_of_idle {sh : Shared} (hC : CallInv sh) {c : Nat} {t : Trunk}
    (ht : sh.trunkVector[c]? = some t) (hn : t.clientSocket = none) : sh.callOn c = none := by
  have h := hC c t ht
  cases hx : sh.callOn c with
  | none => rfl
  | some x =>
    rw [hx] at h
    obtain ⟨p, _, hp⟩ := h
    have hs : t.clientSocket = some p.baseClient := congrArg Prod.fst hp
    rw [hn] at hs
    cases hs

/-- A trunk with a client has a request recorded on it, and carries its call. -/
theorem callOn_of_client {sh : Shared} (hC : CallInv sh) {c : Nat} {t : Trunk} {client : Client}
    (ht : sh.trunkVector[c]? = some t) (hn : t.clientSocket = some client) :
    ∃ x p, sh.callOn c = some x ∧ sh.params[x]? = some p ∧ t.call = p.call := by
  have h := hC c t ht
  cases hx : sh.callOn c with
  | none =>
    rw [hx] at h
    exact absurd (hn.symm.trans h) nofun
  | some x =>
    rw [hx] at h
    obtain ⟨p, hp, htp⟩ := h
    exact ⟨x, p, rfl, hp, htp⟩

theorem client_of_busy_zero {sh : Shared} {c : Nat} {t : Trunk} (ht : sh.trunkVector[c]? = some t)
    (hb : sh.busy c = 0) : t.clientSocket = none := by
  rw [Shared.busy, bit_of_trunk ht] at hb
  cases hs : t.clientSocket with
  | none => rfl
  | some client => rw [hs] at hb; cases hb

theorem calls_get {sh : Shared} {c : Nat} (hc : c < sh.calls.length) :
    sh.calls[c]? = some (sh.callOn c) := by
  rw [Shared.callOn, List.getElem?_eq_getElem hc]
  rfl

/-! ## The conservation law -/

/-- `cti_callout` keeps the count of every request, but for the one it may
forget. -/
theorem callout_req {cfg : Config} {sh sh' : Shared} {x : Nat} {p : CalloutPc} {pc' : Pc}
    (h : CalloutStep sh x p sh' pc') (hR : QueueRange cfg sh) (hpc : InRange cfg (.callout x p))
    (hC : CallInv sh) (hfree : ∀ c, p = .fill c → sh.busy c = 0) (y : Nat) :
    sh'.placed y + tok Pc.request y pc' + tok (Pc.lostRequest sh) y (.callout x p)
      = sh.placed y + tok Pc.request y (.callout x p) := by
  cases h with
  | noTrunk ht =>
    obtain ⟨t, ht'⟩ := hR.exists_trunk (hpc _ rfl)
    rw [ht'] at ht
    cases ht
  | @gaveUp d t ht hm =>
    have hlost : tok (Pc.lostRequest sh) y (.callout x (.lock d)) = if some x = some y then 1 else 0 :=
      tok_lost_locked rfl ht hm y
    rw [hlost]
    rfl
  | @locked d t ht hm =>
    have hlost : tok (Pc.lostRequest sh) y (.callout x (.lock d)) = 0 := tok_lost_free rfl ht hm y
    rw [hlost]
    rfl
  | @filled d q hq =>
    obtain ⟨t, ht⟩ := hR.exists_trunk (hpc _ rfl)
    have hlt : d < sh.calls.length := by rw [hR.calls]; exact hpc d rfl
    -- no other request is overwritten: the trunk had none
    have hnone := callOn_of_idle hC ht (client_of_busy_zero ht (hfree d rfl))
    have h₁ := tokens_set id y (calls_get hlt) (some x)
    rw [hnone] at h₁
    show tokens some y sh.waits + tokens id y (sh.calls.set d (some x))
        + (0 + tokens Obs.answers y sh.log) + 0 + 0
      = tokens some y sh.waits + tokens id y sh.calls + tokens Obs.answers y sh.log
        + (if some x = some y then 1 else 0)
    have h₂ : tok id y (none : Option Nat) = 0 := rfl
    have h₃ : tok id y (some x) = if some x = some y then 1 else 0 := rfl
    omega
  | answeredFail hp =>
    show tokens some y sh.waits + tokens id y sh.calls
        + ((if some x = some y then 1 else 0) + tokens Obs.answers y sh.log) + 0 + 0
      = tokens some y sh.waits + tokens id y sh.calls + tokens Obs.answers y sh.log
        + (if some x = some y then 1 else 0)
    omega
  | answeredTimeout hp =>
    show tokens some y sh.waits + tokens id y sh.calls
        + ((if some x = some y then 1 else 0) + tokens Obs.answers y sh.log) + 0 + 0
      = tokens some y sh.waits + tokens id y sh.calls + tokens Obs.answers y sh.log
        + (if some x = some y then 1 else 0)
    omega
  | armed hp =>
    show tokens some y (sh.waits ++ [x]) + tokens id y sh.calls + tokens Obs.answers y sh.log + 0 + 0
      = tokens some y sh.waits + tokens id y sh.calls + tokens Obs.answers y sh.log
        + (if some x = some y then 1 else 0)
    rw [tokens_put]
    omega
  | dialled =>
    show tokens some y sh.waits + tokens id y sh.calls + (0 + tokens Obs.answers y sh.log) + _ + _
      = _ + _
    rw [Nat.zero_add]
    rfl
  | _ => rfl

/-- `cti_hangUp` turns a recorded request into an answered one. -/
theorem hangUp_req {cfg : Config} {sh sh' : Shared} {k : Caller} {d : Nat} {status : Bytes}
    {p : HangUpPc} {pc' : Pc} (h : HangUpStep sh k d status p sh' pc') (hR : QueueRange cfg sh)
    (hpc : InRange cfg (.hangUp k d status p)) (y : Nat) :
    sh'.placed y = sh.placed y ∧ pc'.request = none := by
  cases h with
  | noTrunk => cases k <;> exact ⟨rfl, rfl⟩
  | lockBusy => cases k <;> exact ⟨rfl, rfl⟩
  | unlocked => cases k <;> exact ⟨rfl, rfl⟩
  -- the token leaves `calls` and enters the history in the same step
  | answered =>
    have hlt : d < sh.calls.length := by rw [hR.calls]; exact hpc d rfl
    have h₁ := tokens_set id y (calls_get hlt) none
    have h₂ : tok id y (none : Option Nat) = 0 := rfl
    have h₃ : tok id y (sh.callOn d) = if sh.callOn d = some y then 1 else 0 := rfl
    refine ⟨?_, rfl⟩
    show tokens some y sh.waits + tokens id y (sh.calls.set d none)
        + ((if sh.callOn d = some y then 1 else 0) + tokens Obs.answers y sh.log)
      = tokens some y sh.waits + tokens id y sh.calls + tokens Obs.answers y sh.log
    omega
  | _ => exact ⟨rfl, rfl⟩

theorem SameCalls.placed {sh sh' : Shared} (h : SameCalls sh sh') (y : Nat) :
    sh'.placed y = sh.placed y := by
  rw [Shared.placed, Shared.placed, h.waits, h.calls, h.log]

theorem autoDial_request {cfg : Config} {sh sh' : Shared} {c : Nat} {p : AutoDialPc} {pc' : Pc}
    (h : AutoDialStep cfg sh c p sh' pc') : pc'.request = none :=
  autoDial_none h (fun _ => rfl) (fun _ => rfl) rfl

theorem timeoutCheck_request {cfg : Config} {sh sh' : Shared} {p : TimeoutPc} {pc' : Pc}
    (h : TimeoutStep cfg sh p sh' pc') : pc'.request = none := by
  cases h <;> rfl

theorem strategy_request {cfg : Config} {sh sh' : Shared} {p : StrategyPc} {pc' : Pc}
    (h : StrategyStep cfg sh p sh' pc') : pc'.request = none := by
  cases h <;> rfl

/-- One step of any thread keeps the count of every request, but for the one
it may forget. -/
theorem thread_req {cfg : Config} {sh sh' : Shared} {i : Nat} {pc pc' : Pc}
    (h : ThreadStep cfg sh i pc sh' pc') (hR : QueueRange cfg sh) (hpc : InRange cfg pc)
    (hC : CallInv sh) (hfree : ∀ x c, pc = .callout x (.fill c) → sh.busy c = 0) (y : Nat) :
    sh'.placed y + tok Pc.request y pc' + tok (Pc.lostRequest sh) y pc
      = sh.placed y + tok Pc.request y pc := by
  cases h with
  | callout h => exact callout_req h hR hpc hC (fun d hd => hfree _ d (by rw [hd])) y
  | hangUp h =>
    obtain ⟨h₁, h₂⟩ := hangUp_req h hR hpc y
    rw [h₁, tok_of_none h₂]
    rfl
  | autoDial h =>
    rw [(autoDial_sameCalls h).placed, tok_of_none (autoDial_request h)]
    rfl
  | timeoutCheck h =>
    rw [(timeoutCheck_sameCalls h).placed, tok_of_none (timeoutCheck_request h)]
    rfl
  | strategy h =>
    rw [(strategy_sameCalls h).placed, tok_of_none (strategy_request h)]
    rfl
  | ret =>
    show tokens some y sh.waits + tokens id y sh.calls + (0 + tokens Obs.answers y sh.log) + 0 + 0
      = tokens some y sh.waits + tokens id y sh.calls + tokens Obs.answers y sh.log + 0
    omega

/-- The request a failed retry wait forgets. -/
def Action.lostRequest : Action → Option Nat
  | .fire x true => some x
  | _ => none

/-- A new request starts with its `cti_callout`; a fired wait hands its request
on, a failed one forgets it. -/
theorem env_req {sh sh' : Shared} {i : Nat} {a : Action} {new : List Pc}
    (h : EnvStep sh i a sh' new) (y : Nat) :
    sh'.placed y + tokens Pc.request y new + tok Action.lostRequest y a + sh.made y
      = sh.placed y + sh'.made y := by
  cases h with
  | call =>
    show sh.placed y + ((if some sh.params.length = some y then 1 else 0) + 0) + 0 + sh.made y
      = sh.placed y + (if y < (sh.params ++ [_]).length then 1 else 0)
    rw [List.length_append, List.length_singleton, Shared.made]
    simp only [Option.some.injEq]
    split <;> split <;> split <;> omega
  | @fired x p hp hw ht =>
    have h₁ := tokens_erase some y hw
    show tokens some y (sh.waits.erase x) + tokens id y sh.calls + tokens Obs.answers y sh.log
        + (tok some y x + 0) + 0 + sh.made y
      = tokens some y sh.waits + tokens id y sh.calls + tokens Obs.answers y sh.log + sh.made y
    omega
  | @fireError x p hp hw =>
    have h₁ := tokens_erase some y hw
    show tokens some y (sh.waits.erase x) + tokens id y sh.calls + tokens Obs.answers y sh.log
        + 0 + tok some y x + sh.made y
      = tokens some y sh.waits + tokens id y sh.calls + tokens Obs.answers y sh.log + sh.made y
    omega
  | autoDial =>
    show tokens some y sh.waits + _ + (0 + tokens Obs.answers y sh.log) + 0 + 0 + sh.made y = _
    rw [Nat.zero_add]
    rfl
  | _ => rfl

/-- **No request is in two places**, in every reachable state. -/
theorem reachable_requestInv (h : ReachableBy cfg ok s) : RequestInv s.shared s.threads := by
  obtain ⟨echo, h⟩ := h
  refine Program.Reach.rule ?_ ?_ ?_ h
  · intro y
    have hts : tokens Pc.request y (initial cfg echo).threads = 0 :=
      tokens_initial_threads rfl rfl y
    have hcalls : tokens id y (initial cfg echo).shared.calls = 0 :=
      tokens_eq_zero_iff.mpr fun o ho => by
        rw [List.eq_of_mem_replicate ho]
        exact nofun
    have hp : (initial cfg echo).shared.placed y = 0 := by
      show 0 + tokens id y _ + 0 = 0
      rw [hcalls]
    rw [hts, hp]
    exact Nat.zero_le _
  · intro sh ts a sh' new _ hQ _ henv y
    have h₁ := env_req (env_step henv).2 y
    have h₂ : sh.placed y + tokens Pc.request y ts ≤ sh.made y := hQ y
    show _ ≤ sh'.made y
    rw [tokens_append]
    omega
  · intro sh ts i l r sh' l' hreach hQ _ hl hex y
    have hR := reachable_rangeInv ⟨echo, hreach⟩
    have hC := reachable_chanInv ⟨echo, hreach⟩
    have hmem := List.mem_of_getElem? hl
    have h₁ := tokens_set Pc.request y hl l'
    have h₂ := thread_req (exec_step hex).2 hR.queues (hR.threads l hmem)
      (reachable_callInv ⟨echo, hreach⟩) (fun x d hd => busy_of_fill hC (hd ▸ hmem)) y
    have h₃ : sh.placed y + tokens Pc.request y ts ≤ sh.made y := hQ y
    show _ ≤ sh'.made y
    rw [thread_made (exec_step hex).2]
    omega

/-! ## One answer, to the right client -/

/-- A response goes to the client of the request it answers, with the
`transId` of that request. -/
def AnswersRequest (params : List CallOutParam) (req : Option Nat) (r : Response) : Prop :=
  ∃ x p, req = some x ∧ params[x]? = some p ∧ r.client = p.baseClient ∧ r.transId = p.transId

/-- Every response of the run answers a request, rightly. -/
def AnswerInv (sh : Shared) : Prop :=
  ∀ req r, Obs.response req r ∈ sh.log → AnswersRequest sh.params req r

theorem AnswersRequest.mono {ps ps' : List CallOutParam} (h : SameRequests ps ps')
    {req : Option Nat} {r : Response} (ha : AnswersRequest ps req r) : AnswersRequest ps' req r := by
  obtain ⟨x, p, hx, hp, hc, ht⟩ := ha
  obtain ⟨p', hp', hpp⟩ := h x p hp
  refine ⟨x, p', hx, hp', ?_, ?_⟩
  · exact hc.trans (Option.some.inj (congrArg Prod.fst hpp).symm)
  · exact ht.trans (congrArg (fun q => q.2.1) hpp).symm

/-- A step that writes no response keeps all of them right. -/
theorem AnswerInv.of_log {sh sh' : Shared} (hA : AnswerInv sh)
    (hl : ∀ o ∈ sh'.log, o ∈ sh.log ∨ ∀ req r, o ≠ .response req r)
    (hp : SameRequests sh.params sh'.params) : AnswerInv sh' := by
  intro req r hr
  rcases hl _ hr with h | h
  · exact (hA req r h).mono hp
  · exact absurd rfl (h req r)

/-- A step that writes one right response keeps all of them right. -/
theorem AnswerInv.respond {sh sh' : Shared} (hA : AnswerInv sh) {req : Option Nat} {r : Response}
    (hl : sh'.log = .response req r :: sh.log) (hp : sh'.params = sh.params)
    (hr : AnswersRequest sh.params req r) : AnswerInv sh' := by
  intro req' r' h'
  rw [hl] at h'
  rw [hp]
  rcases List.mem_cons.mp h' with he | hm
  · cases he
    exact hr
  · exact hA req' r' hm

theorem mem_note {o o' : Obs} {log : List Obs} (ho : ∀ req r, o ≠ .response req r)
    (h : o' ∈ o :: log) : o' ∈ log ∨ ∀ req r, o' ≠ .response req r := by
  rcases List.mem_cons.mp h with rfl | hm
  · exact Or.inr ho
  · exact Or.inl hm

theorem thread_answer {cfg : Config} {sh sh' : Shared} {i : Nat} {pc pc' : Pc}
    (h : ThreadStep cfg sh i pc sh' pc') (hC : CallInv sh) (hA : AnswerInv sh) :
    AnswerInv sh' := by
  have hsame := (thread_params h).2
  cases h with
  | callout h =>
    cases h with
    | answeredFail hp => exact hA.respond rfl rfl ⟨_, _, rfl, hp, rfl, rfl⟩
    | answeredTimeout hp => exact hA.respond rfl rfl ⟨_, _, rfl, hp, rfl, rfl⟩
    | dialled => exact hA.of_log (fun _ ho => mem_note (by intro _ _ he; cases he) ho) hsame
    | filled => exact hA.of_log (fun _ ho => mem_note (by intro _ _ he; cases he) ho) hsame
    | _ => exact hA.of_log (fun _ ho => Or.inl ho) hsame
  | @hangUp k _ _ _ _ _ h =>
    cases h with
    | noTrunk => cases k <;> exact hA.of_log (fun _ ho => Or.inl ho) hsame
    -- what is written comes from the trunk, and the trunk carries its request's call
    | answered ht hn =>
      obtain ⟨x, p, hx, hp, htp⟩ := callOn_of_client hC ht hn
      have hs : some _ = some p.baseClient := hn.symm.trans (congrArg Prod.fst htp)
      exact hA.respond rfl rfl ⟨x, p, hx, hp, Option.some.inj hs, congrArg (fun q => q.2.1) htp⟩
    | _ => exact hA.of_log (fun _ ho => Or.inl ho) hsame
  | autoDial h =>
    exact hA.of_log (fun o ho => Or.inl ((autoDial_sameCalls h).log ▸ ho)) hsame
  | timeoutCheck h =>
    exact hA.of_log (fun o ho => Or.inl ((timeoutCheck_sameCalls h).log ▸ ho)) hsame
  | strategy h =>
    exact hA.of_log (fun o ho => Or.inl ((strategy_sameCalls h).log ▸ ho)) hsame
  | ret => exact hA.of_log (fun _ ho => mem_note (by intro _ _ he; cases he) ho) hsame

theorem env_answer {sh sh' : Shared} {i : Nat} {a : Action} {new : List Pc}
    (h : EnvStep sh i a sh' new) (hA : AnswerInv sh) : AnswerInv sh' := by
  cases h with
  | call => exact hA.of_log (fun _ ho => Or.inl ho) (.append _ _)
  | autoDial => exact hA.of_log (fun _ ho => mem_note (by intro _ _ he; cases he) ho) (.refl _)
  | _ => exact hA.of_log (fun _ ho => Or.inl ho) (.refl _)

theorem reachable_answerInv (h : ReachableBy cfg ok s) : AnswerInv s.shared := by
  obtain ⟨echo, h⟩ := h
  refine Program.Reach.rule (I := fun sh _ => AnswerInv sh) ?_ ?_ ?_ h
  · exact fun _ _ hr => nomatch hr
  · intro sh ts a sh' new _ hA _ henv
    exact env_answer (env_step henv).2 hA
  · intro sh ts i l r sh' l' hreach hA _ hl hex
    exact thread_answer (exec_step hex).2 (reachable_callInv ⟨echo, hreach⟩) hA

/-- Over the whole run up to this state: every request has at most one
response, and every response is one to a request's own client, with its own
`transId`. -/
structure OneAnswer (s : Conf Shared Pc) : Prop where
  atMostOne : ∀ x, tokens Obs.answers x s.shared.log ≤ 1
  right : ∀ req r, Obs.response req r ∈ s.shared.log → AnswersRequest s.shared.params req r

/-- **At most one answer per call, to the right client.** -/
theorem oneAnswer (h : Reachable cfg s) : OneAnswer s := by
  refine ⟨fun x => ?_, reachable_answerInv h⟩
  have h₁ := reachable_requestInv h x
  unfold Shared.placed Shared.made at h₁
  split at h₁ <;> omega

/-- A call recorded on its trunk and answered after a busy tone. -/
theorem oneAnswer_busytone :
    OneAnswer (after oneChannel anyMove (fun _ => true)
      [.env (.call 7 [1] [] [] true), .run 2 0, .run 2 0, .run 2 0, .run 2 0, .run 2 0,
       .env (.event .procAutoDial 0 .busytone), .run 3 0, .run 3 0, .run 3 0, .run 3 0,
       .run 3 0]) :=
  oneAnswer (reachable_after (by decide)).reachable

end CiaServer.Cti
