import CiaServer.Cti.Accounts
import CiaServer.Cti.History

/-!
# How often a request is dialled

`cti_callout` is entered again and again while the card is busy, but it dials
only when it has a channel. `voiceCard_dials`: over every run, and however the
attempts of all requests interleave, `SsmAutoDial` is called at most twice for a
request, and once it has returned 0 never again; and the retry timer of a request
expires within 27 s of the call. (The number of attempts has no such bound: an
expired timer is waited for again and again.)

`Shared.left` counts the dials a request has before it: one wherever it may
still come to a dial, and one more as long as its first has not failed.

Mirroring notes:
- `cti_callout_again` is one step: the clock is read once, for the 25 s and for
  `expires_from_now`. What passes between the two readings of the source comes on top
  of the 27 s.
-/

namespace CiaServer.Cti

open Interleave

variable {cfg : Config} {s : Conf Shared Pc}

/-! ## What a move dials -/

/-- The request a thread is about to dial for. -/
def Pc.dials : Pc → Option Nat
  | .callout x (.dial _) => some x
  | _ => none

/-- The request a move calls `SsmAutoDial` for. -/
def dialledFor (s : Conf Shared Pc) : Move Action Int → Option Nat
  | .run i _ => s.threads[i]?.bind Pc.dials
  | .env _ => none

/-- The request that a thread may still dial for. -/
def Pc.toDial : Pc → Option Nat
  | .callout x .take => some x
  | .callout x (.dial _) => some x
  | .callout x .again => some x
  | _ => none

/-- The request whose dial has failed, before it is known what comes of it. -/
def Pc.hasFailed : Pc → Option Nat
  | .callout x (.put _) => some x
  | .callout x .failed => some x
  | _ => none

/-- The dial of request `x` may fail once more. -/
def Shared.secondLeft (sh : Shared) (x : Nat) : Bool := sh.params[x]?.any (·.repeatCallOut)

/-- The dials request `x` has before it, if `d` threads may dial for it and `f` have failed. -/
def Shared.left (sh : Shared) (x d f : Nat) : Nat :=
  sh.waits.count x + d + if sh.secondLeft x then sh.waits.count x + d + f else 0

/-! ## One step of a thread -/

/-- The request is in no more places from which it may be dialled, and as before it has a
second dial or not. -/
theorem left_le {sh sh' : Shared} {x d d' f f' n : Nat} (hs : sh'.secondLeft x = sh.secondLeft x)
    (hd : sh'.waits.count x + d' + n ≤ sh.waits.count x + d)
    (hf : sh'.waits.count x + d' + f' ≤ sh.waits.count x + d + f) :
    sh'.left x d' f' + n ≤ sh.left x d f := by
  rw [Shared.left, Shared.left, hs]
  split <;> omega

theorem secondLeft_congr {sh sh' : Shared} (h : sh'.params = sh.params) (x : Nat) :
    sh'.secondLeft x = sh.secondLeft x := by
  rw [Shared.secondLeft, Shared.secondLeft, h]

theorem secondLeft_of_ne {sh sh' : Shared} {x y : Nat} {p : CallOutParam} (hne : y ≠ x)
    (h : sh'.params = sh.params.set y p) : sh'.secondLeft x = sh.secondLeft x := by
  rw [Shared.secondLeft, Shared.secondLeft, h, List.getElem?_set_ne hne]

theorem secondLeft_of_record {sh sh' : Shared} {x : Nat} {p q : CallOutParam}
    (hp : sh.params[x]? = some p) (h : sh'.params = sh.params.set x q) :
    sh.secondLeft x = p.repeatCallOut ∧ sh'.secondLeft x = q.repeatCallOut := by
  rw [Shared.secondLeft, Shared.secondLeft, h, hp,
    List.getElem?_set_self (List.getElem?_eq_some_iff.mp hp).1]
  exact ⟨rfl, rfl⟩

/-- What a step of a thread does to the dials that request `x` has before it. -/
def Spends (sh : Shared) (pc : Pc) (sh' : Shared) (pc' : Pc) (x : Nat) : Prop :=
  ∀ d f, sh'.left x (d + tok Pc.toDial x pc') (f + tok Pc.hasFailed x pc') + tok Pc.dials x pc
    ≤ sh.left x (d + tok Pc.toDial x pc) (f + tok Pc.hasFailed x pc)

/-- Who has no request dials for none. -/
theorem dials_of_request {pc : Pc} (h : pc.request = none) :
    pc.toDial = none ∧ pc.hasFailed = none ∧ pc.dials = none := by
  cases pc with
  | callout x p => cases p <;> first | cases h; done | exact ⟨rfl, rfl, rfl⟩
  | _ => exact ⟨rfl, rfl, rfl⟩

/-- A step that has nothing to do with any request. -/
theorem spends_of_request {sh sh' : Shared} {pc pc' : Pc} (h : pc.request = none)
    (h' : pc'.request = none) (hw : sh'.waits = sh.waits) (hp : sh'.params = sh.params) (x : Nat) :
    Spends sh pc sh' pc' x := by
  obtain ⟨hd, hf, hn⟩ := dials_of_request h
  obtain ⟨hd', hf', _⟩ := dials_of_request h'
  intro d f
  rw [tok_of_none hd, tok_of_none hf, tok_of_none hn, tok_of_none hd', tok_of_none hf']
  rw [Shared.left, Shared.left, secondLeft_congr hp, hw, Nat.add_zero]

/-- Another request's attempt. -/
theorem spends_of_ne {sh sh' : Shared} {y x : Nat} {p : CalloutPc} {pc' : Pc}
    (h : CalloutStep sh y p sh' pc') (hne : y ≠ x) : Spends sh (.callout y p) sh' pc' x := by
  have htok : ∀ q : CalloutPc, tok Pc.toDial x (.callout y q) = 0 ∧
      tok Pc.hasFailed x (.callout y q) = 0 ∧ tok Pc.dials x (.callout y q) = 0 := by
    intro q
    have hsome : some y ≠ some x := fun he => hne (Option.some.inj he)
    cases q <;> exact ⟨by first | exact tok_of_ne hsome | exact tok_of_none rfl,
      by first | exact tok_of_ne hsome | exact tok_of_none rfl,
      by first | exact tok_of_ne hsome | exact tok_of_none rfl⟩
  have hdone : tok Pc.toDial x .done = 0 ∧ tok Pc.hasFailed x .done = 0 :=
    ⟨tok_of_none rfl, tok_of_none rfl⟩
  intro d f
  obtain ⟨h₁, h₂, h₃⟩ := htok p
  rw [h₁, h₂, h₃]
  have hpc' : tok Pc.toDial x pc' = 0 ∧ tok Pc.hasFailed x pc' = 0 := by
    cases h <;> first | exact hdone | exact ⟨(htok _).1, (htok _).2.1⟩
  rw [hpc'.1, hpc'.2]
  have hcount : (sh.waits ++ [y]).count x = sh.waits.count x := by
    rw [List.count_append, List.count_singleton, if_neg (by simpa using hne)]
    rfl
  cases h with
  | secondTry => exact left_le (secondLeft_of_ne hne rfl) (Nat.le_refl _) (Nat.le_refl _)
  | armed =>
    refine left_le (secondLeft_of_ne hne rfl) ?_ ?_
    · exact Nat.le_of_eq (congrArg (· + (d + 0) + 0) hcount)
    · exact Nat.le_of_eq (congrArg (· + (d + 0) + (f + 0)) hcount)
  | _ => exact left_le (secondLeft_congr rfl x) (Nat.le_refl _) (Nat.le_refl _)

theorem armTimer_repeat (p : CallOutParam) (now : Nat) :
    (p.armTimer now).repeatCallOut = p.repeatCallOut := by
  unfold CallOutParam.armTimer
  split <;> rfl

/-- A step that leaves waits and records alone. -/
theorem spends_of_tok {sh sh' : Shared} {pc pc' : Pc} {x : Nat} (hw : sh'.waits = sh.waits)
    (hp : sh'.params = sh.params)
    (hd : tok Pc.toDial x pc' + tok Pc.dials x pc ≤ tok Pc.toDial x pc)
    (hf : tok Pc.toDial x pc' + tok Pc.hasFailed x pc'
      ≤ tok Pc.toDial x pc + tok Pc.hasFailed x pc) : Spends sh pc sh' pc' x := by
  intro d f
  refine left_le (secondLeft_congr hp x) ?_ ?_ <;> rw [hw] <;> omega

/-- The request's own attempt. -/
theorem spends_self {sh sh' : Shared} {x : Nat} {p : CalloutPc} {pc' : Pc}
    (h : CalloutStep sh x p sh' pc') : Spends sh (.callout x p) sh' pc' x := by
  cases h with
  | @secondTry p hp hr =>
    obtain ⟨h₁, h₂⟩ := secondLeft_of_record hp (show ({ sh with
      params := sh.params.set x { p with repeatCallOut := false } } : Shared).params = _ from rfl)
    intro d f
    rw [Shared.left, Shared.left, h₁, h₂, hr]
    simp only [tok, Pc.toDial, Pc.hasFailed, Pc.dials, reduceCtorEq, if_true, if_false,
      Bool.false_eq_true]
    omega
  | @armed p hp =>
    -- it waits again; what it may dial is the same
    obtain ⟨h₁, h₂⟩ := secondLeft_of_record hp (show ({ sh with
      params := sh.params.set x (p.armTimer sh.now), waits := sh.waits ++ [x] } : Shared).params = _
        from rfl)
    have hcount : (sh.waits ++ [x]).count x = sh.waits.count x + 1 := by
      rw [List.count_append, List.count_singleton_self]
    intro d f
    simp only [tok, Pc.toDial, Pc.hasFailed, Pc.dials, reduceCtorEq, if_true, if_false]
    refine left_le (h₂.trans ((armTimer_repeat _ _).trans h₁.symm)) ?_ ?_ <;> dsimp only <;>
      rw [hcount] <;> omega
  | _ =>
    refine spends_of_tok rfl rfl ?_ ?_
    · simp only [tok, Pc.toDial, Pc.dials, reduceCtorEq, if_true, if_false]
      omega
    · simp only [tok, Pc.toDial, Pc.hasFailed, reduceCtorEq, if_true, if_false]
      omega

theorem thread_spends {sh sh' : Shared} {i : Nat} {pc pc' : Pc} (h : ThreadStep cfg sh i pc sh' pc')
    (x : Nat) : Spends sh pc sh' pc' x := by
  cases h with
  | @callout y _ _ _ hs =>
    by_cases hyx : y = x
    · subst hyx
      exact spends_self hs
    · exact spends_of_ne hs hyx
  | @hangUp k _ _ _ _ _ hs =>
    cases hs with
    | noTrunk => cases k <;> exact spends_of_request rfl rfl rfl rfl x
    | lockBusy | unlocked => cases k <;> exact spends_of_request rfl rfl rfl rfl x
    | _ => exact spends_of_request rfl rfl rfl rfl x
  | autoDial hs =>
    have hsame := autoDial_sameCalls hs
    exact spends_of_request rfl (autoDial_request hs) hsame.waits hsame.params x
  | timeoutCheck hs =>
    have hsame := timeoutCheck_sameCalls hs
    exact spends_of_request rfl (timeoutCheck_request hs) hsame.waits hsame.params x
  | strategy hs =>
    have hsame := strategy_sameCalls hs
    exact spends_of_request rfl (strategy_request hs) hsame.waits hsame.params x
  | ret => exact spends_of_request rfl rfl rfl rfl x

/-! ## One move -/

/-- The dials request `x` has before it. -/
def toCome (x : Nat) (s : Conf Shared Pc) : Nat :=
  s.shared.left x (tokens Pc.toDial x s.threads) (tokens Pc.hasFailed x s.threads)

/-- A thread takes its part out of a count and puts the new one in. -/
theorem tokens_swap (f : Pc → Option Nat) (x : Nat) {ts : List Pc} {i : Nat} {pc : Pc}
    (h : ts[i]? = some pc) (pc' : Pc) :
    ∃ d, tokens f x ts = d + tok f x pc ∧ tokens f x (ts.set i pc') = d + tok f x pc' := by
  have hle := tok_le_tokens f x (List.mem_of_getElem? h)
  have hset := tokens_set f x h pc'
  exact ⟨tokens f x ts - tok f x pc, by omega, by omega⟩

/-- A request that has not been made is nowhere. -/
theorem nowhere_of_new {sh : Shared} {ts : List Pc} (hQ : RequestInv sh ts) {x : Nat}
    (hx : sh.params.length ≤ x) :
    sh.waits.count x = 0 ∧ tokens Pc.toDial x ts = 0 ∧ tokens Pc.hasFailed x ts = 0 := by
  have hzero := hQ x
  rw [Shared.made, if_neg (Nat.not_lt.mpr hx), Shared.placed, tokens_some_eq_count] at hzero
  have hnone : ∀ pc ∈ ts, pc.request ≠ some x := tokens_eq_zero_iff.mp (by omega)
  refine ⟨by omega, ?_, ?_⟩
  · refine tokens_eq_zero_iff.mpr fun pc hpc he => hnone pc hpc ?_
    unfold Pc.toDial at he
    split at he <;> first | exact he | cases he
  · refine tokens_eq_zero_iff.mpr fun pc hpc he => hnone pc hpc ?_
    unfold Pc.hasFailed at he
    split at he <;> first | exact he | cases he

/-- A `cti_callout` that starts. -/
theorem tokens_take (x y : Nat) : tokens Pc.toDial x [.callout y .take] = tok some x y ∧
    tokens Pc.hasFailed x [.callout y .take] = 0 := ⟨rfl, rfl⟩

/-- A request that is made brings two dials. -/
theorem left_env {sh sh' : Shared} {ts new : List Pc} {i : Nat} {a : Action}
    (h : EnvStep sh i a sh' new) (hQ : RequestInv sh ts) (x : Nat) :
    sh'.left x (tokens Pc.toDial x (ts ++ new)) (tokens Pc.hasFailed x (ts ++ new)) + 2 * sh.made x
      ≤ sh.left x (tokens Pc.toDial x ts) (tokens Pc.hasFailed x ts) + 2 * sh'.made x := by
  rw [tokens_append, tokens_append]
  cases h with
  | @call client transId authCode pn echo =>
    by_cases hx : sh.params.length = x
    · obtain ⟨hw, hd, hf⟩ := nowhere_of_new hQ (Nat.le_of_eq hx)
      have hmade : sh.made x = 0 := if_neg (by omega)
      have hmade' : ({ sh with params := sh.params ++
          [.new client transId authCode pn echo sh.now] } : Shared).made x = 1 := by
        refine if_pos ?_
        rw [List.length_append, List.length_singleton]
        omega
      rw [Shared.left, hw, hd, hf, hmade, hmade', hx]
      simp only [tokens_cons, tokens_nil, tok, Pc.toDial, Pc.hasFailed, reduceCtorEq, if_true,
        if_false]
      split <;> omega
    · have hne : some sh.params.length ≠ some x := fun he => hx (Option.some.inj he)
      have hsecond : ({ sh with params := sh.params ++
          [.new client transId authCode pn echo sh.now] } : Shared).secondLeft x
            = sh.secondLeft x := by
        rw [Shared.secondLeft, Shared.secondLeft, List.getElem?_append]
        split
        · rfl
        · rw [List.getElem?_eq_none (by rw [List.length_singleton]; omega),
            List.getElem?_eq_none (by omega)]
      have hmade : sh.made x ≤ ({ sh with params := sh.params ++
          [.new client transId authCode pn echo sh.now] } : Shared).made x := by
        rw [Shared.made, Shared.made, List.length_append]
        split
        · rw [if_pos (by omega)]
        · exact Nat.zero_le _
      rw [(tokens_take _ _).1, (tokens_take _ _).2, tok_of_ne hne]
      exact Nat.add_le_add (left_le (n := 0) hsecond (Nat.le_refl _) (Nat.le_refl _))
        (Nat.mul_le_mul_left 2 hmade)
  | @fired y p hp hw ht =>
    have herase := tokens_erase some x hw
    rw [tokens_some_eq_count, tokens_some_eq_count] at herase
    rw [(tokens_take _ _).1, (tokens_take _ _).2]
    refine Nat.add_le_add (left_le (n := 0) (secondLeft_congr rfl x) ?_ ?_) (Nat.le_refl _) <;>
      dsimp only <;> omega
  | @fireError y p hp hw =>
    have herase := tokens_erase some x hw
    rw [tokens_some_eq_count, tokens_some_eq_count] at herase
    rw [tokens_nil, tokens_nil]
    refine Nat.add_le_add (left_le (n := 0) (secondLeft_congr rfl x) ?_ ?_) (Nat.le_refl _) <;>
      dsimp only <;> omega
  | _ => exact Nat.le_refl _

theorem toCome_step (hr : Reachable cfg s) {m : Move Action Int} {s' : Conf Shared Pc} (x : Nat)
    (h : (voiceCard cfg).step s m = some s') :
    toCome x s' + (if dialledFor s m = some x then 1 else 0) + 2 * s.shared.made x
      ≤ toCome x s + 2 * s'.shared.made x := by
  rcases Program.step_cases h with ⟨a, sh, new, rfl, he, rfl⟩ | ⟨i, r, l, sh, l', rfl, hl, he, rfl⟩
  · rw [dialledFor, if_neg nofun]
    exact left_env (env_step he).2 (reachable_requestInv hr) x
  · have hmade : sh.made x = s.shared.made x := thread_made (exec_step he).2 x
    obtain ⟨d, hd, hd'⟩ := tokens_swap Pc.toDial x hl l'
    obtain ⟨f, hf, hf'⟩ := tokens_swap Pc.hasFailed x hl l'
    have hspends := thread_spends (exec_step he).2 x d f
    rw [dialledFor, bind_threads hl, toCome, toCome, hd, hf]
    dsimp only
    rw [hd', hf', hmade]
    exact Nat.add_le_add_right hspends _

/-! ## The timers -/

/-- A timer expires within 27 s of the call, and who waits has one. -/
structure TimerInv (sh : Shared) : Prop where
  expiry : ∀ (x : Nat) (p : CallOutParam), sh.params[x]? = some p →
    ∀ e ∈ p.repeatCallOutTimer, e ≤ p.callTime + 27000
  waits : ∀ x ∈ sh.waits, ∃ p : CallOutParam, sh.params[x]? = some p ∧ p.repeatCallOutTimer.isSome = true

/-- One record is changed, to one that is as good. -/
theorem TimerInv.set {sh sh' : Shared} (h : TimerInv sh) {x : Nat} {p q : CallOutParam}
    (hp : sh.params[x]? = some p) (hparams : sh'.params = sh.params.set x q)
    (hwaits : ∀ y ∈ sh'.waits, y ≠ x → y ∈ sh.waits)
    (he : ∀ e ∈ q.repeatCallOutTimer, e ≤ q.callTime + 27000)
    (hq : x ∈ sh'.waits → q.repeatCallOutTimer.isSome = true) : TimerInv sh' := by
  constructor
  · intro y r hr
    rw [hparams] at hr
    rcases getElem?_set_cases hp hr with ⟨_, rfl⟩ | ⟨_, hr'⟩
    · exact he
    · exact h.expiry y r hr'
  · intro y hy
    rw [hparams]
    by_cases hyx : y = x
    · subst hyx
      exact ⟨q, List.getElem?_set_self (List.getElem?_eq_some_iff.mp hp).1, hq hy⟩
    · rw [List.getElem?_set_ne (Ne.symm hyx)]
      exact h.waits y (hwaits y hy hyx)

theorem TimerInv.congr {sh sh' : Shared} (h : TimerInv sh) (hp : sh'.params = sh.params)
    (hw : sh'.waits = sh.waits) : TimerInv sh' :=
  ⟨by rw [hp]; exact h.expiry, by rw [hp, hw]; exact h.waits⟩

/-- `cti_callout_again` arms the timer only within 25 s of the call. -/
theorem armTimer_expiry {p : CallOutParam} {now : Nat}
    (hp : ∀ e ∈ p.repeatCallOutTimer, e ≤ p.callTime + 27000) (ht : ¬25000 < p.elapsed now) :
    (∀ e ∈ (p.armTimer now).repeatCallOutTimer, e ≤ (p.armTimer now).callTime + 27000) ∧
      (p.armTimer now).repeatCallOutTimer.isSome = true := by
  unfold CallOutParam.armTimer
  split
  · refine ⟨fun e he => ?_, rfl⟩
    cases he
    unfold CallOutParam.elapsed at ht
    dsimp only
    omega
  · next e he => exact ⟨hp, by rw [he]; rfl⟩

theorem callout_timer {sh sh' : Shared} {x : Nat} {p : CalloutPc} {pc' : Pc}
    (h : CalloutStep sh x p sh' pc') (hT : TimerInv sh) : TimerInv sh' := by
  cases h with
  | @secondTry p hp =>
    refine hT.set hp rfl (fun y hy _ => hy) (hT.expiry x p hp) fun hx => ?_
    obtain ⟨q, hq, hsome⟩ := hT.waits x hx
    rw [hp] at hq
    cases hq
    exact hsome
  | @armed p hp ht =>
    obtain ⟨he, hsome⟩ := armTimer_expiry (hT.expiry x p hp) ht
    refine hT.set hp rfl (fun y hy hne => ?_) he fun _ => hsome
    exact (List.mem_append.mp hy).resolve_right fun hyx => hne (List.mem_singleton.mp hyx)
  | _ => exact hT.congr rfl rfl

theorem thread_timer {sh sh' : Shared} {i : Nat} {pc pc' : Pc} (h : ThreadStep cfg sh i pc sh' pc')
    (hT : TimerInv sh) : TimerInv sh' := by
  cases h with
  | callout hs => exact callout_timer hs hT
  | @hangUp k _ _ _ _ _ hs =>
    cases hs with
    | noTrunk => cases k <;> exact hT.congr rfl rfl
    | _ => exact hT.congr rfl rfl
  | autoDial hs => exact hT.congr (autoDial_sameCalls hs).params (autoDial_sameCalls hs).waits
  | timeoutCheck hs =>
    exact hT.congr (timeoutCheck_sameCalls hs).params (timeoutCheck_sameCalls hs).waits
  | strategy hs => exact hT.congr (strategy_sameCalls hs).params (strategy_sameCalls hs).waits
  | ret => exact hT.congr rfl rfl

theorem env_timer {sh sh' : Shared} {i : Nat} {a : Action} {new : List Pc}
    (h : EnvStep sh i a sh' new) (hT : TimerInv sh) : TimerInv sh' := by
  cases h with
  | call =>
    refine ⟨fun x p hp => ?_, fun x hx => ?_⟩
    · rcases getElem?_append_cases hp with hp' | ⟨_, rfl⟩
      · exact hT.expiry x p hp'
      · exact nofun
    · obtain ⟨p, hp, hsome⟩ := hT.waits x hx
      refine ⟨p, ?_, hsome⟩
      rw [List.getElem?_append_left (List.getElem?_eq_some_iff.mp hp).1]
      exact hp
  | fired | fireError =>
    exact ⟨hT.expiry, fun x hx => hT.waits x (List.mem_of_mem_erase hx)⟩
  | _ => exact hT.congr rfl rfl

theorem reachable_timerInv (h : Reachable cfg s) : TimerInv s.shared := by
  obtain ⟨echo, h⟩ := h
  refine Program.Reach.rule (I := fun sh _ => TimerInv sh) ?_ ?_ ?_ h
  · constructor
    · intro x p hp
      cases hp
    · intro x hx
      cases hx
  · intro sh ts a sh' new _ hT _ henv
    exact env_timer (env_step henv).2 hT
  · intro sh ts i l r sh' l' _ hT _ _ hex
    exact thread_timer (exec_step hex).2 hT

/-! ## Over a run -/

/-- The requests that a run from the start dials for. -/
def dials (cfg : Config) (echo : Nat → Bool) (ms : List (Move Action Int)) : List Nat :=
  noted (voiceCard cfg).step dialledFor (initial cfg echo) ms

/-- How the requests are dialled in the run `ms`, which ends in `s`. -/
structure Dialled (cfg : Config) (echo : Nat → Bool) (ms : List (Move Action Int))
    (s : Conf Shared Pc) : Prop where
  /-- `SsmAutoDial` is called at most twice for a request. -/
  twice : ∀ x, (dials cfg echo ms).count x ≤ 2
  /-- The second time is the last: nothing is left that could dial. -/
  noThird : ∀ x, (dials cfg echo ms).count x = 2 →
    x ∉ s.shared.waits ∧ ∀ pc ∈ s.threads, pc.toDial ≠ some x
  /-- And so is one that returned 0. -/
  reached : ∀ x c, .dialled x c ∈ s.shared.log →
    x ∉ s.shared.waits ∧ ∀ pc ∈ s.threads, pc.toDial ≠ some x
  /-- Who waits has a timer, which expires within 27 s of the call. -/
  expiry : ∀ x ∈ s.shared.waits, ∃ (p : CallOutParam) (e : Nat), s.shared.params[x]? = some p ∧
    p.repeatCallOutTimer = some e ∧ e ≤ p.callTime + 27000

section
variable {echo : Nat → Bool} {ms : List (Move Action Int)}

theorem dials_le (h : (voiceCard cfg).run (fun _ _ => true) (initial cfg echo) ms = some s)
    (x : Nat) : toCome x s + (dials cfg echo ms).count x ≤ 2 * s.shared.made x := by
  rw [Program.run_true] at h
  -- at the start nothing waits and no thread has a request
  have hzero : toCome x (initial cfg echo) = 0 := by
    rw [toCome, tokens_initial_threads rfl rfl, tokens_initial_threads rfl rfl]
    rfl
  have hle : toCome x s + (dials cfg echo ms).count x + 0
      ≤ toCome x (initial cfg echo) + 2 * s.shared.made x :=
    noted_le (g := dialledFor) (Reachable cfg) (toCome x) (fun s => 2 * s.shared.made x) x
      (fun _ _ _ hr hst => hr.step hst) (fun _ _ _ hr hst => toCome_step hr x hst)
      (reachable_initial cfg echo) h
  omega

/-- What waits for no dial and is with no thread that may dial is not dialled again. -/
theorem nothing_toDial {sh : Shared} {ts : List Pc} {x : Nat} (hw : sh.waits.count x = 0)
    (hd : tokens Pc.toDial x ts = 0) : x ∉ sh.waits ∧ ∀ pc ∈ ts, pc.toDial ≠ some x :=
  ⟨List.count_eq_zero.mp hw, tokens_eq_zero_iff.mp hd⟩

/-- Who may dial for a request has not dialled it yet. -/
theorem preDial_of_toDial {pc : Pc} {x : Nat} (h : pc.toDial = some x) : pc.preDial = some x := by
  unfold Pc.toDial at h
  split at h <;> first | exact h | cases h

/-- **A request is dialled at most twice**, in every run, and no more once it is reached. -/
theorem voiceCard_dials
    (h : (voiceCard cfg).run (fun _ _ => true) (initial cfg echo) ms = some s) :
    Dialled cfg echo ms s := by
  have hr := run_reachable h
  have hD := reachable_dialInv hr
  have hT := reachable_timerInv hr
  have hmade : ∀ x, s.shared.made x ≤ 1 := by
    intro x
    rw [Shared.made]
    split <;> omega
  constructor
  · intro x
    have hle := dials_le h x
    have hone := hmade x
    omega
  · intro x hx
    have hle := dials_le h x
    have hone := hmade x
    rw [toCome, Shared.left] at hle
    exact nothing_toDial (by omega) (by omega)
  · intro x c hx
    refine ⟨fun hw => ?_, fun pc hpc he => preDial_of_dialled hD hx hpc (preDial_of_toDial he)⟩
    have hdialled := one_le_tokens (f := Obs.dials) hx rfl
    have hwaits := List.count_pos_iff.mpr hw
    have hle := hD x
    have hone := hmade x
    rw [tokens_some_eq_count] at hle
    omega
  · intro x hx
    obtain ⟨p, hp, hsome⟩ := hT.waits x hx
    obtain ⟨e, he⟩ := Option.isSome_iff_exists.mp hsome
    exact ⟨p, e, hp, he, hT.expiry x p hp e he⟩

end

/-- A call whose first dial fails, and whose second reaches the driver two seconds later. -/
def secondDialMoves : List (Move Action Int) :=
  [.env (.call 0 [1] [2] [3] true), .run 2 0, .run 2 1, .run 2 0, .run 2 0, .run 2 0,
    .env (.tick 2000), .env (.fire 0 false), .run 3 0, .run 3 0]

/-- It is dialled twice, and reached. -/
theorem voiceCard_dials_second :
    Dialled oneChannel (fun _ => true) secondDialMoves
      (after oneChannel anyMove (fun _ => true) secondDialMoves) :=
  voiceCard_dials (Program.run_eq_some_after (by decide))

example : dials oneChannel (fun _ => true) secondDialMoves = [0, 0] := by decide

end CiaServer.Cti
