import CiaServer.Cti.BusyClient

/-!
# Dials and callbacks in the history

What the two claims about rings need from the log of a run: that a request is
dialled at most once (`DialInv`), that the request that has a channel is the
one the channel was dialled for (`HolderInv`), and which success callbacks
started after a dial (`startedAfter`).
-/

namespace CiaServer.Cti

open Interleave

/-- The results after which `deal_e_proc_auto_dial` reports success. -/
def DialResult.success : DialResult → Bool
  | .echotone => true
  | .busytone => true
  | .voice => true
  | .voicef1 => true
  | .voicef2 => true
  | _ => false

/-- The threads of the success callbacks on `c` that started after
`SsmAutoDial(c)` had returned 0 for request `x`. -/
def startedAfter (x c : Nat) : List Obs → List Nat
  | [] => []
  | .delivered i d dw :: log =>
    if d = c ∧ dw.success = true ∧ .dialled x c ∈ log then i :: startedAfter x c log
    else startedAfter x c log
  | _ :: log => startedAfter x c log

/-- A success callback on `c` started after the last successful dial on `c`. -/
def rungSince (c : Nat) : List Obs → Bool
  | [] => false
  | .delivered _ d dw :: log => (d == c && dw.success) || rungSince c log
  | .dialled _ d :: log => d != c && rungSince c log
  | _ :: log => rungSince c log

/-- A ring since the last dial on `c` is one since the dial for `x`. -/
theorem startedAfter_of_rungSince {x c : Nat} :
    ∀ log : List Obs, rungSince c log = true → .dialled x c ∈ log → startedAfter x c log ≠ []
  | .delivered i d dw :: log, hr, hx => by
    have hx' : .dialled x c ∈ log := (List.mem_cons.mp hx).resolve_left nofun
    simp only [startedAfter]
    split
    · exact nofun
    · next hn =>
      refine startedAfter_of_rungSince log ?_ hx'
      simp only [rungSince, Bool.or_eq_true, Bool.and_eq_true, beq_iff_eq] at hr
      exact hr.resolve_left fun h => hn ⟨h.1, h.2, hx'⟩
  | .dialled y d :: log, hr, hx => by
    simp only [rungSince, Bool.and_eq_true, bne_iff_ne, ne_eq] at hr
    rcases List.mem_cons.mp hx with h | h
    · cases h
      exact absurd rfl hr.1
    · exact startedAfter_of_rungSince log hr.2 h
  | .recorded _ _ _ :: log, hr, hx =>
    startedAfter_of_rungSince log hr ((List.mem_cons.mp hx).resolve_left nofun)
  | .returned _ _ :: log, hr, hx =>
    startedAfter_of_rungSince log hr ((List.mem_cons.mp hx).resolve_left nofun)
  | .response _ _ :: log, hr, hx =>
    startedAfter_of_rungSince log hr ((List.mem_cons.mp hx).resolve_left nofun)

theorem startedAfter_cons {x c i : Nat} {o : Obs} {log : List Obs}
    (h : i ∈ startedAfter x c log) : i ∈ startedAfter x c (o :: log) := by
  cases o with
  | delivered j d dw =>
    simp only [startedAfter]
    split
    · exact List.mem_cons_of_mem _ h
    · exact h
  | _ => exact h

theorem startedAfter_append {x c i : Nat} {log : List Obs} (h : i ∈ startedAfter x c log) :
    ∀ b : List Obs, i ∈ startedAfter x c (b ++ log)
  | [] => h
  | _ :: b => startedAfter_cons (startedAfter_append h b)

/-- Only a callback that starts now is added. -/
theorem startedAfter_of_cons {x c i : Nat} {o : Obs} {log : List Obs}
    (h : i ∈ startedAfter x c (o :: log)) :
    i ∈ startedAfter x c log ∨ ∃ dw, o = .delivered i c dw ∧ dw.success = true := by
  cases o with
  | delivered j d dw =>
    simp only [startedAfter] at h
    split at h
    · next hd =>
      rcases List.mem_cons.mp h with rfl | h
      · exact Or.inr ⟨dw, by rw [hd.1], hd.2.1⟩
      · exact Or.inl h
    · exact Or.inl h
  | _ => exact Or.inl h

/-- A callback that started after the dial was delivered, and the dial is in
the history. -/
theorem delivered_of_startedAfter {x c i : Nat} :
    ∀ log : List Obs, i ∈ startedAfter x c log →
      .dialled x c ∈ log ∧ ∃ dw, .delivered i c dw ∈ log
  | .delivered j d dw :: log, h => by
    simp only [startedAfter] at h
    have hrest : i ∈ startedAfter x c log → .dialled x c ∈ .delivered j d dw :: log ∧
        ∃ dw', .delivered i c dw' ∈ Obs.delivered j d dw :: log := by
      intro h'
      obtain ⟨hx, dw', hdw⟩ := delivered_of_startedAfter log h'
      exact ⟨List.mem_cons_of_mem _ hx, dw', List.mem_cons_of_mem _ hdw⟩
    split at h
    · next hd =>
      rcases List.mem_cons.mp h with rfl | h
      · exact ⟨List.mem_cons_of_mem _ hd.2.2, dw, by rw [hd.1]; exact List.mem_cons_self ..⟩
      · exact hrest h
    · exact hrest h
  | .dialled _ _ :: log, h => by
    obtain ⟨hx, dw, hdw⟩ := delivered_of_startedAfter log h
    exact ⟨List.mem_cons_of_mem _ hx, dw, List.mem_cons_of_mem _ hdw⟩
  | .recorded _ _ _ :: log, h => by
    obtain ⟨hx, dw, hdw⟩ := delivered_of_startedAfter log h
    exact ⟨List.mem_cons_of_mem _ hx, dw, List.mem_cons_of_mem _ hdw⟩
  | .returned _ _ :: log, h => by
    obtain ⟨hx, dw, hdw⟩ := delivered_of_startedAfter log h
    exact ⟨List.mem_cons_of_mem _ hx, dw, List.mem_cons_of_mem _ hdw⟩
  | .response _ _ :: log, h => by
    obtain ⟨hx, dw, hdw⟩ := delivered_of_startedAfter log h
    exact ⟨List.mem_cons_of_mem _ hx, dw, List.mem_cons_of_mem _ hdw⟩

/-! ## What a step writes into the history -/

/-- The observation thread `i` makes with its step from a program point. -/
inductive Notes (sh : Shared) (i : Nat) : Pc → Obs → Prop where
  | dialled {x c : Nat} : Notes sh i (.callout x (.dial c)) (.dialled x c)
  | recorded {x c : Nat} : Notes sh i (.callout x (.fill c)) (.recorded x c sh.now)
  | failed {x : Nat} {p : CallOutParam} :
      Notes sh i (.callout x .failed) (.response (some x) (p.response ciaCallFail))
  | timeout {x : Nat} {p : CallOutParam} :
      Notes sh i (.callout x .again) (.response (some x) (p.response ciaCallTimeout))
  | answered {k : Caller} {c : Nat} {status : Bytes} {retVal : Int} {client : Client}
      {transId : Bytes} (hb : sh.busy c = 1) :
      Notes sh i (.hangUp k c status (.answer retVal))
        (.response (sh.callOn c) { client, transId, status })
  | returned : Notes sh i .ret (.returned i sh.now)

theorem thread_log {cfg : Config} {sh sh' : Shared} {i : Nat} {pc pc' : Pc}
    (h : ThreadStep cfg sh i pc sh' pc') :
    sh'.log = sh.log ∨ ∃ o, sh'.log = o :: sh.log ∧ Notes sh i pc o := by
  cases h with
  | callout h =>
    cases h with
    | dialled => exact Or.inr ⟨_, rfl, .dialled⟩
    | filled => exact Or.inr ⟨_, rfl, .recorded⟩
    | answeredFail => exact Or.inr ⟨_, rfl, .failed⟩
    | answeredTimeout => exact Or.inr ⟨_, rfl, .timeout⟩
    | _ => exact Or.inl rfl
  | @hangUp k _ _ _ _ _ h =>
    cases h with
    | noTrunk => cases k <;> exact Or.inl rfl
    | answered ht hn =>
      refine Or.inr ⟨_, rfl, .answered ?_⟩
      rw [Shared.busy, bit_of_trunk ht, hn]
      rfl
    | _ => exact Or.inl rfl
  | autoDial h => exact Or.inl (autoDial_sameCalls h).log
  | timeoutCheck h => exact Or.inl (timeoutCheck_sameCalls h).log
  | strategy h => exact Or.inl (strategy_sameCalls h).log
  | ret => exact Or.inr ⟨_, rfl, .returned⟩

theorem env_log {sh sh' : Shared} {i : Nat} {a : Action} {new : List Pc}
    (h : EnvStep sh i a sh' new) :
    (sh'.log = sh.log ∧ ∀ c dw, .autoDial c (.enter dw) ∉ new) ∨
      ∃ c dw, sh'.log = .delivered i c dw :: sh.log ∧ new = [.autoDial c (.enter dw)] := by
  cases h with
  | autoDial => exact Or.inr ⟨_, _, rfl, rfl⟩
  | _ => exact Or.inl ⟨rfl, by intro c dw; simp⟩

theorem thread_log_mono {cfg : Config} {sh sh' : Shared} {i : Nat} {pc pc' : Pc}
    (h : ThreadStep cfg sh i pc sh' pc') {o : Obs} (ho : o ∈ sh.log) : o ∈ sh'.log := by
  rcases thread_log h with hl | ⟨o', hl, _⟩ <;> rw [hl]
  · exact ho
  · exact List.mem_cons_of_mem _ ho

theorem env_log_mono {sh sh' : Shared} {i : Nat} {a : Action} {new : List Pc}
    (h : EnvStep sh i a sh' new) {o : Obs} (ho : o ∈ sh.log) : o ∈ sh'.log := by
  rcases env_log h with ⟨hl, _⟩ | ⟨c, dw, hl, _⟩ <;> rw [hl]
  · exact ho
  · exact List.mem_cons_of_mem _ ho

/-! ## A request is dialled once -/

/-- The request an observation dials. -/
def Obs.dials : Obs → Option Nat
  | .dialled x _ => some x
  | _ => none

/-- The request a `cti_callout` has not dialled yet. -/
def Pc.preDial : Pc → Option Nat
  | .callout x .take => some x
  | .callout x (.dial _) => some x
  | .callout x (.put _) => some x
  | .callout x .failed => some x
  | .callout x .again => some x
  | _ => none

/-- A request is dialled, about to be dialled, or waits to be: one of these, and
only once it has been made. -/
def DialInv (sh : Shared) (ts : List Pc) : Prop :=
  ∀ x, tokens Obs.dials x sh.log + tokens Pc.preDial x ts + tokens some x sh.waits ≤ sh.made x

/-- A step of `cti_callout` adds no dial of a request but the one it was about
to make. -/
theorem callout_dial {sh sh' : Shared} {x : Nat} {p : CalloutPc} {pc' : Pc}
    (h : CalloutStep sh x p sh' pc') (y : Nat) :
    tokens Obs.dials y sh'.log + tok Pc.preDial y pc' + tokens some y sh'.waits
      ≤ tokens Obs.dials y sh.log + tok Pc.preDial y (.callout x p) + tokens some y sh.waits := by
  cases h with
  | @dialled c =>
    show (if some x = some y then 1 else 0) + tokens Obs.dials y sh.log + 0 + tokens some y sh.waits
      ≤ tokens Obs.dials y sh.log + (if some x = some y then 1 else 0) + tokens some y sh.waits
    omega
  | armed =>
    show tokens Obs.dials y sh.log + 0 + tokens some y (sh.waits ++ [x])
      ≤ tokens Obs.dials y sh.log + (if some x = some y then 1 else 0) + tokens some y sh.waits
    rw [tokens_put]
    omega
  | _ => simp [tok, Pc.preDial, Obs.dials]

theorem autoDial_preDial {cfg : Config} {sh sh' : Shared} {c : Nat} {p : AutoDialPc} {pc' : Pc}
    (h : AutoDialStep cfg sh c p sh' pc') : pc'.preDial = none :=
  autoDial_none h (fun _ => rfl) (fun _ => rfl) rfl

/-- A step that neither dials nor waits. -/
theorem dial_of_other {sh sh' : Shared} {pc pc' : Pc} (hw : sh'.waits = sh.waits)
    (hl : sh'.log = sh.log ∨ ∃ o, sh'.log = o :: sh.log ∧ o.dials = none)
    (hpc : pc'.preDial = none) (y : Nat) :
    tokens Obs.dials y sh'.log + tok Pc.preDial y pc' + tokens some y sh'.waits
      ≤ tokens Obs.dials y sh.log + tok Pc.preDial y pc + tokens some y sh.waits := by
  have h₁ : tokens Obs.dials y sh'.log = tokens Obs.dials y sh.log := by
    rcases hl with hl | ⟨o, hl, ho⟩ <;> rw [hl]
    rw [tokens_cons, tok_of_none ho, Nat.zero_add]
  rw [h₁, hw, tok_of_none hpc]
  omega

theorem thread_dial {cfg : Config} {sh sh' : Shared} {i : Nat} {pc pc' : Pc}
    (h : ThreadStep cfg sh i pc sh' pc') (y : Nat) :
    tokens Obs.dials y sh'.log + tok Pc.preDial y pc' + tokens some y sh'.waits
      ≤ tokens Obs.dials y sh.log + tok Pc.preDial y pc + tokens some y sh.waits := by
  cases h with
  | callout h => exact callout_dial h y
  | @hangUp k _ _ _ _ _ h =>
    cases h with
    | noTrunk => cases k <;> exact dial_of_other rfl (Or.inl rfl) rfl y
    | lockBusy => exact dial_of_other rfl (Or.inl rfl) (by cases k <;> rfl) y
    | unlocked => exact dial_of_other rfl (Or.inl rfl) (by cases k <;> rfl) y
    | answered =>
      refine dial_of_other ?_ (Or.inr ⟨_, rfl, ?_⟩) ?_ y <;> rfl
    | _ => exact dial_of_other rfl (Or.inl rfl) rfl y
  | autoDial h =>
    exact dial_of_other (autoDial_sameCalls h).waits (Or.inl (autoDial_sameCalls h).log)
      (autoDial_preDial h) y
  | timeoutCheck h =>
    exact dial_of_other (timeoutCheck_sameCalls h).waits (Or.inl (timeoutCheck_sameCalls h).log)
      (by cases h <;> rfl) y
  | strategy h =>
    exact dial_of_other (strategy_sameCalls h).waits (Or.inl (strategy_sameCalls h).log)
      (by cases h <;> rfl) y
  | ret =>
    refine dial_of_other ?_ (Or.inr ⟨_, rfl, ?_⟩) ?_ y <;> rfl

/-- A new request starts undialled, a fired wait hands its request on. -/
theorem env_dial {sh sh' : Shared} {i : Nat} {a : Action} {new : List Pc}
    (h : EnvStep sh i a sh' new) (y : Nat) :
    tokens Obs.dials y sh'.log + tokens Pc.preDial y new + tokens some y sh'.waits + sh.made y
      ≤ tokens Obs.dials y sh.log + tokens some y sh.waits + sh'.made y := by
  cases h with
  | call =>
    show tokens Obs.dials y sh.log + ((if some sh.params.length = some y then 1 else 0) + 0)
        + tokens some y sh.waits + sh.made y
      ≤ tokens Obs.dials y sh.log + tokens some y sh.waits
        + (if y < (sh.params ++ [_]).length then 1 else 0)
    rw [List.length_append, List.length_singleton, Shared.made]
    simp only [Option.some.injEq]
    split <;> split <;> split <;> omega
  | @fired x p hp hw ht =>
    have h₁ := tokens_erase some y hw
    show tokens Obs.dials y sh.log + (tok some y x + 0) + tokens some y (sh.waits.erase x)
      + sh.made y ≤ _ + _ + sh.made y
    omega
  | @fireError x p hp hw =>
    have h₁ := tokens_erase some y hw
    show tokens Obs.dials y sh.log + 0 + tokens some y (sh.waits.erase x) + sh.made y
      ≤ _ + _ + sh.made y
    omega
  | autoDial =>
    show 0 + tokens Obs.dials y sh.log + 0 + tokens some y sh.waits + sh.made y ≤ _ + _ + sh.made y
    omega
  | _ =>
    show tokens Obs.dials y sh.log + 0 + tokens some y sh.waits + sh.made y ≤ _ + _ + sh.made y
    omega

variable {cfg : Config} {ok : Conf Shared Pc → Move Action Int → Prop} {s : Conf Shared Pc}

/-- **A request is dialled at most once**, in every run. -/
theorem reachable_dialInv (h : ReachableBy cfg ok s) : DialInv s.shared s.threads := by
  obtain ⟨echo, h⟩ := h
  refine Program.Reach.rule ?_ ?_ ?_ h
  · intro y
    rw [tokens_initial_threads rfl rfl]
    exact Nat.zero_le _
  · intro sh ts a sh' new _ hD _ henv y
    have h₁ := env_dial (env_step henv).2 y
    have h₂ : _ ≤ sh.made y := hD y
    show _ ≤ sh'.made y
    rw [tokens_append]
    omega
  · intro sh ts i l r sh' l' _ hD _ hl hex y
    have h₁ := tokens_set Pc.preDial y hl l'
    have h₂ := thread_dial (exec_step hex).2 y
    have h₃ : _ ≤ sh.made y := hD y
    show _ ≤ sh'.made y
    rw [thread_made (exec_step hex).2]
    omega

theorem dial_unique {sh : Shared} {ts : List Pc} (hD : DialInv sh ts) {x c d : Nat}
    (hc : .dialled x c ∈ sh.log) (hd : .dialled x d ∈ sh.log) : c = d := by
  -- two dials of `x` would be two tokens in the history
  have h₁ : tokens Obs.dials x sh.log ≤ 1 := by
    have := hD x
    unfold Shared.made at this
    split at this <;> omega
  obtain ⟨i, hi⟩ := List.mem_iff_getElem?.mp hc
  obtain ⟨j, hj⟩ := List.mem_iff_getElem?.mp hd
  have hij := holder_unique (f := Obs.dials) h₁ hi rfl hj rfl
  subst hij
  rw [hi] at hj
  cases hj
  rfl

theorem preDial_of_dialled {sh : Shared} {ts : List Pc} (hD : DialInv sh ts) {x c : Nat}
    (hc : .dialled x c ∈ sh.log) {pc : Pc} (hpc : pc ∈ ts) : pc.preDial ≠ some x := by
  intro hx
  have h₁ : 1 ≤ tokens Obs.dials x sh.log := one_le_tokens hc rfl
  have h₂ := one_le_tokens hpc hx
  have h₃ := hD x
  unfold Shared.made at h₃
  split at h₃ <;> omega

theorem made_of_dialled {sh : Shared} {ts : List Pc} (hD : DialInv sh ts) {x c : Nat}
    (hc : .dialled x c ∈ sh.log) : x < sh.params.length := by
  have h₁ : 1 ≤ tokens Obs.dials x sh.log := one_le_tokens hc rfl
  have h₂ := hD x
  unfold Shared.made at h₂
  split at h₂
  · assumption
  · omega

/-! ## The request on a channel was dialled there -/

/-- A request that is dialled but not recorded yet, and its channel. -/
def Pc.unrecorded : Pc → Option (Nat × Nat)
  | .callout x (.lock c) => some (x, c)
  | .callout x (.fill c) => some (x, c)
  | _ => none

/-- A request on its way to a trunk, or on it, was dialled on that channel. -/
structure HolderInv (sh : Shared) (ts : List Pc) : Prop where
  recorded : ∀ c x, sh.callOn c = some x → .dialled x c ∈ sh.log
  unrecorded : ∀ pc ∈ ts, ∀ x c, pc.unrecorded = some (x, c) → .dialled x c ∈ sh.log

/-- A request comes onto a trunk from the `cti_callout` that dialled it. -/
theorem thread_callOn {cfg : Config} {sh sh' : Shared} {i : Nat} {pc pc' : Pc}
    (h : ThreadStep cfg sh i pc sh' pc') {c x : Nat} (hx : sh'.callOn c = some x) :
    sh.callOn c = some x ∨ pc = .callout x (.fill c) := by
  cases thread_write h with
  | filled _ _ hc =>
    rcases callOn_set_cases hc hx with ⟨_, hx⟩ | ⟨rfl, he⟩
    · exact Or.inl hx
    · cases he
      exact Or.inr rfl
  | released _ hc =>
    rcases callOn_set_cases hc hx with ⟨_, hx⟩ | ⟨_, he⟩
    · exact Or.inl hx
    · cases he
  | nothing _ hc => exact Or.inl ((callOn_congr hc c).symm.trans hx)
  | mutex _ hc => exact Or.inl ((callOn_congr hc c).symm.trans hx)
  | slept _ hc => exact Or.inl ((callOn_congr hc c).symm.trans hx)
  | flagged _ hc => exact Or.inl ((callOn_congr hc c).symm.trans hx)
  | hungup _ hc => exact Or.inl ((callOn_congr hc c).symm.trans hx)

theorem thread_unrecorded {cfg : Config} {sh sh' : Shared} {i : Nat} {pc pc' : Pc}
    (h : ThreadStep cfg sh i pc sh' pc') {x c : Nat} (hx : pc'.unrecorded = some (x, c)) :
    pc.unrecorded = some (x, c) ∨ pc = .callout x (.dial c) ∧ .dialled x c ∈ sh'.log := by
  cases h with
  | callout h =>
    cases h with
    | dialled => cases hx; exact Or.inr ⟨rfl, List.mem_cons_self ..⟩
    | locked => cases hx; exact Or.inl rfl
    | _ => cases hx
  | @hangUp k _ _ _ _ _ h =>
    cases h with
    | noTrunk => cases k <;> cases hx
    | lockBusy => cases k <;> cases hx
    | unlocked => cases k <;> cases hx
    | _ => cases hx
  | autoDial h =>
    rw [autoDial_none h (f := Pc.unrecorded) (fun _ => rfl) (fun _ => rfl) rfl] at hx
    cases hx
  | timeoutCheck h => cases h <;> cases hx
  | strategy h => cases h <;> cases hx
  | ret => cases hx

theorem reachable_holderInv (h : ReachableBy cfg ok s) : HolderInv s.shared s.threads := by
  obtain ⟨echo, h⟩ := h
  refine Program.Reach.rule ?_ ?_ ?_ h
  · refine ⟨fun c x hx => ?_, fun pc hpc x c hx => ?_⟩
    · rw [initial_callOn c] at hx
      cases hx
    · rcases mem_initial_threads hpc with rfl | rfl
      · cases hx
      · cases hx
  · intro sh ts a sh' new _ hH _ henv
    have henv' := (env_step henv).2
    refine ⟨fun c x hx => ?_, fun pc hpc x c hx => ?_⟩
    · rw [callOn_congr (env_trunks henv').2] at hx
      exact env_log_mono henv' (hH.recorded c x hx)
    · rcases List.mem_append.mp hpc with hpc | hpc
      · exact env_log_mono henv' (hH.unrecorded pc hpc x c hx)
      · rcases env_new henv' hpc with ⟨y, rfl⟩ | ⟨d, dw, rfl⟩ | rfl <;> cases hx
  · intro sh ts i l r sh' l' _ hH _ hl hex
    have hstep := (exec_step hex).2
    have hmem := List.mem_of_getElem? hl
    refine ⟨fun c x hx => ?_, fun pc hpc x c hx => ?_⟩
    · refine thread_log_mono hstep ?_
      rcases thread_callOn hstep hx with h | rfl
      · exact hH.recorded c x h
      · exact hH.unrecorded _ hmem x c rfl
    · rcases List.mem_or_eq_of_mem_set hpc with hpc | rfl
      · exact thread_log_mono hstep (hH.unrecorded pc hpc x c hx)
      · rcases thread_unrecorded hstep hx with h | ⟨_, h⟩
        · exact thread_log_mono hstep (hH.unrecorded _ hmem x c h)
        · exact h

end CiaServer.Cti
