import CiaServer.Net.Inactivity

/-!
# Is the peer asked before it is dropped?

A check that finds `m_update_time` more than half the timeout back sends a
heartbeat, and one that finds it more than the timeout back stops the client.
The checks come 3 s apart, whatever the timeout is: if half of it is shorter
than that, the time a heartbeat could be sent in may lie between two checks, and
the peer is dropped without having been asked (`heartbeatFirst_fails`).

`heartbeatFirst_iff`: no client is stopped for inactivity without a heartbeat
since `m_update_time` was last set, and none whose peer answers every heartbeat
at once, exactly if the timeout is 5999 ms or longer.

The session is watched (`Program.watch`) with the note whether a heartbeat was
started since `m_update_time` was last set.
-/

namespace CiaServer.Net.Session

open Wire Interleave
open Relation (ReflTransGen)

/-- What a handler's step does to the note. -/
def heartbeatSince : Pc → Bool → Bool
  | .heart, _ => true
  | .read (.onBody false), _ => false
  | .read (.dealt _ .heart), _ => false
  | .onSend false, _ => false
  | _, b => b

/-- A session, with the note. -/
abbrev Watched := Shared × Bool

def watched (P : Protobuf) (o : ByteOrder) : Program Watched Pc Event Unit :=
  (session P o).watch heartbeatSince

/-- `start()`, before any heartbeat. -/
def startWatched (data : Buffer) (timeoutElapsed now : Nat) : Conf Watched Pc where
  shared := ((start data timeoutElapsed now).shared, false)
  threads := []

/-- A handler of the timer that is not done yet. -/
def Pc.ofTimer : Pc → Bool
  | .onTimer _ => true
  | .heart => true
  | .check => true
  | _ => false

/-- The checks are 3 s apart: the wait completes when it has expired, and its
handler takes no time. -/
def Punctual (s : Conf Watched Pc) : Move Event Unit → Prop
  | .env (.tick d) => (∀ pc ∈ s.threads, pc.ofTimer = false) ∧
    ∀ expiry, s.shared.1.checkTimeoutTimer = some expiry → s.shared.1.now + d ≤ expiry
  | _ => True

/-- The peer answers a heartbeat at once: no time passes before `m_update_time`
is set. -/
def Prompt (s : Conf Watched Pc) : Move Event Unit → Prop
  | .env (.tick d) => s.shared.2 = true → d = 0
  | _ => True

/-- The check of a running client that stops it for inactivity. -/
def StopsIdle (s : Conf Watched Pc) : Move Event Unit → Prop
  | .env _ => False
  | .run i _ => s.threads[i]? = some (.onTimer false) ∧ s.shared.1.reader.started = true ∧
    s.shared.1.Overdue s.shared.1.updateTime

/-- The peer is asked before it is dropped, and not dropped if it answers. -/
structure HeartbeatFirst (P : Protobuf) (o : ByteOrder) (data : Buffer) (timeoutElapsed now : Nat) :
    Prop where
  asked : ∀ s m, (watched P o).Reach Punctual (startWatched data timeoutElapsed now) s →
    StopsIdle s m → s.shared.2 = true
  answered : ∀ s m, (watched P o).Reach (fun s m => Punctual s m ∧ Prompt s m)
    (startWatched data timeoutElapsed now) s → ¬StopsIdle s m

variable {P : Protobuf} {o : ByteOrder} {s s' : Shared} {b b' : Bool} {i : Nat} {l l' : Pc}

/-! ## What a move does -/

/-- No handler of a read starts a session again. -/
theorem exec_started {r r' : Reader.Session} {h h' : Reader.Handler} {u : Unit}
    (hex : Reader.exec P o r i h u = some (r', h')) (hs : r'.started = true) : r.started = true := by
  unfold Reader.exec at hex
  split at hex <;> cases hex <;> first | exact hs | cases hs

/-- Neither does the environment. -/
theorem env_started {r r' : Reader.Session} {n : Nat} {e : Reader.Event} {new : List Reader.Handler}
    (henv : Reader.env r n e = some (r', new)) (hs : r'.started = true) : r.started = true := by
  cases Reader.env_step henv with
  | @deliver rd k =>
    unfold Reader.Session.deliver at hs
    split at hs <;> exact hs
  | stopElsewhere => cases hs
  | _ => exact hs

/-- What most moves leave alone: only the timer's have to do with the clock, and
where `m_update_time` is not set, the note is not cleared. -/
structure Keeps (s : Shared) (b : Bool) (s' : Shared) (b' : Bool) : Prop where
  now : s'.now = s.now
  timeoutElapsed : s'.timeoutElapsed = s.timeoutElapsed
  started : s'.reader.started = true → s.reader.started = true
  update : s'.updateTime = s.now ∨ s'.updateTime = s.updateTime ∧ (b = true → b' = true)

theorem Step.keeps (h : Step P o s i l s' l') (b : Bool) : Keeps s b s' (heartbeatSince l b) := by
  cases h with
  | @read h h' _ reader hstep =>
    have hst := exec_started hstep
    cases h with
    | onHeader ec => cases ec <;> exact ⟨rfl, rfl, hst, Or.inr ⟨rfl, id⟩⟩
    | onBody ec =>
      cases ec with
      | false => exact ⟨rfl, rfl, hst, Or.inl rfl⟩
      | true => exact ⟨rfl, rfl, hst, Or.inr ⟨rfl, id⟩⟩
    | dealt body request => cases hstep
    | _ => exact ⟨rfl, rfl, hst, Or.inr ⟨rfl, id⟩⟩
  | heartResponse => exact ⟨rfl, rfl, id, Or.inl rfl⟩
  | sendDone => exact ⟨rfl, rfl, id, Or.inl rfl⟩
  | sendFailed => exact ⟨rfl, rfl, nofun, Or.inr ⟨rfl, id⟩⟩
  | timerFailed => exact ⟨rfl, rfl, nofun, Or.inr ⟨rfl, id⟩⟩
  | timedOut => exact ⟨rfl, rfl, nofun, Or.inr ⟨rfl, id⟩⟩
  | heart => exact ⟨rfl, rfl, id, Or.inr ⟨rfl, fun _ => rfl⟩⟩
  | check =>
    unfold Shared.doTimeoutCheck
    split <;> exact ⟨rfl, rfl, id, Or.inr ⟨rfl, id⟩⟩
  | _ => exact ⟨rfl, rfl, id, Or.inr ⟨rfl, id⟩⟩

/-- Only `do_timeout_check` arms the timer. -/
theorem Step.checkTimeoutTimer_eq (h : Step P o s i l s' l') (hl : l ≠ .check) :
    s'.checkTimeoutTimer = s.checkTimeoutTimer := by
  cases h with
  | @read h h' _ reader hstep =>
    unfold Shared.afterRead
    split <;> rfl
  | check => exact absurd rfl hl
  | _ => rfl

/-! ## At every check the peer has been asked -/

/-- At a check at time `t` a heartbeat was started, or it is not time yet. -/
def AskedAt (s : Shared) (b : Bool) (t : Nat) : Prop :=
  b = true ∨ totalMilliseconds (t - s.updateTime) ≤ s.timeoutElapsed / 2

/-- A handler of the timer knows of the check before it, or of its own. -/
def AtTimer (s : Shared) (b : Bool) : Pc → Prop
  | .onTimer false => AskedAt s b (s.now - 1000 * timeoutCheckElapsed)
  | .check => s.reader.started = true → AskedAt s b s.now
  | _ => True

theorem AtTimer.of_not_ofTimer {pc : Pc} (h : pc.ofTimer = false) : AtTimer s b pc := by
  cases pc <;> trivial

/-- The armed wait expires 3 s after the last check. -/
structure AskedInv (s : Shared) (b : Bool) (ts : List Pc) : Prop where
  armed : ∀ expiry, s.checkTimeoutTimer = some expiry →
    s.now ≤ expiry ∧ expiry ≤ s.now + 1000 * timeoutCheckElapsed ∧
      AskedAt s b (expiry - 1000 * timeoutCheckElapsed)
  timer : ∀ pc ∈ ts, AtTimer s b pc

theorem AskedAt.keeps {t : Nat} (h : AskedAt s b t) (hk : Keeps s b s' b') (ht : t ≤ s.now) :
    AskedAt s' b' t := by
  rcases hk.update with hu | ⟨hu, hb⟩
  · right
    rw [hu, Nat.sub_eq_zero_of_le ht]
    exact Nat.zero_le _
  · rcases h with hb' | hle
    · exact Or.inl (hb hb')
    · right
      rw [hu, hk.timeoutElapsed]
      exact hle

theorem AtTimer.keeps {pc : Pc} (h : AtTimer s b pc) (hk : Keeps s b s' b') : AtTimer s' b' pc := by
  cases pc with
  | onTimer ec =>
    cases ec with
    | true => trivial
    | false =>
      rw [AtTimer, hk.now]
      exact AskedAt.keeps h hk (Nat.sub_le _ _)
  | check =>
    intro hs
    rw [hk.now]
    exact (h (hk.started hs)).keeps hk (Nat.le_refl _)
  | _ => trivial

/-- A move that leaves the timer alone. -/
theorem AskedInv.keeps {ts : List Pc} (hi : AskedInv s b ts) (hk : Keeps s b s' b')
    (ht : s'.checkTimeoutTimer = s.checkTimeoutTimer) : AskedInv s' b' ts := by
  refine ⟨?_, fun pc hpc => (hi.timer pc hpc).keeps hk⟩
  intro expiry he
  obtain ⟨hle, hlt, hasked⟩ := hi.armed expiry (ht ▸ he)
  rw [hk.now]
  exact ⟨hle, hlt, hasked.keeps hk (by omega)⟩

/-- What is known where a handler's step goes. -/
theorem Step.atTimer (h : Step P o s i l s' l') (b : Bool) : AtTimer s' (heartbeatSince l b) l' := by
  cases h with
  | timedOut => exact nofun
  | busy _ hh => exact fun _ => Or.inr (Nat.le_of_not_lt hh)
  | heart => exact fun _ => Or.inl rfl
  | _ => trivial

theorem AskedInv.step {ts : List Pc} (hi : AskedInv s b ts) (hl : ts[i]? = some l)
    (h : Step P o s i l s' l') : AskedInv s' (heartbeatSince l b) (ts.set i l') := by
  have hk := h.keeps b
  have htimer : ∀ pc ∈ ts.set i l', AtTimer s' (heartbeatSince l b) pc := by
    intro pc hpc
    rcases mem_set_cases hl hpc with rfl | ⟨j, _, hj⟩
    · exact h.atTimer b
    · exact (hi.timer pc (List.mem_of_getElem? hj)).keeps hk
  by_cases hc : l = .check
  · subst hc
    refine ⟨?_, htimer⟩
    cases h with
    | check =>
      intro expiry he
      have hat := hi.timer .check (List.mem_of_getElem? hl)
      unfold Shared.doTimeoutCheck at he ⊢
      split at he
      · next hstart =>
        cases he
        rw [if_pos hstart]
        refine ⟨Nat.le_add_right _ _, Nat.le_refl _, ?_⟩
        rw [Nat.add_sub_cancel]
        exact hat hstart
      · next hstart =>
        rw [if_neg hstart]
        exact hi.armed expiry he
  · exact ⟨(hi.keeps hk (h.checkTimeoutTimer_eq hc)).armed, htimer⟩

/-- The clock goes on to the expiry of the wait at most, and not past a check. -/
theorem AskedInv.tick {ts : List Pc} {d : Nat} (hi : AskedInv s b ts)
    (hts : ∀ pc ∈ ts, pc.ofTimer = false)
    (hd : ∀ expiry, s.checkTimeoutTimer = some expiry → s.now + d ≤ expiry) :
    AskedInv { s with now := s.now + d } b ts := by
  refine ⟨?_, ?_⟩
  · intro expiry he
    obtain ⟨hle, hlt, hasked⟩ := hi.armed expiry he
    exact ⟨hd expiry he, Nat.le_trans hlt (by dsimp only; omega), hasked⟩
  · exact fun pc hpc => AtTimer.of_not_ofTimer (hts pc hpc)

/-- The wait completes when it has expired: the check before was 3 s ago. -/
theorem AskedInv.expired {ts : List Pc} {expiry : Nat} {ec : Bool} (hi : AskedInv s b ts)
    (he : s.checkTimeoutTimer = some expiry) (hec : ec = true ∨ expiry ≤ s.now) :
    AskedInv { s with checkTimeoutTimer := none } b (ts ++ [.onTimer ec]) := by
  refine ⟨nofun, ?_⟩
  intro pc hpc
  rcases List.mem_append.mp hpc with hpc | hpc
  · exact hi.timer pc hpc
  · cases List.mem_singleton.mp hpc
    cases ec with
    | true => trivial
    | false =>
      obtain ⟨hle, -, hasked⟩ := hi.armed expiry he
      have hnow : expiry = s.now := Nat.le_antisymm (hec.resolve_left nofun) hle
      exact hnow ▸ hasked

/-- A handler of a read or of a send is none of the timer's. -/
theorem AskedInv.append {ts new : List Pc} (hi : AskedInv s b ts)
    (hnew : ∀ pc ∈ new, pc.ofTimer = false) : AskedInv s b (ts ++ new) := by
  refine ⟨hi.armed, ?_⟩
  intro pc hpc
  rcases List.mem_append.mp hpc with hpc | hpc
  · exact hi.timer pc hpc
  · exact AtTimer.of_not_ofTimer (hnew pc hpc)

theorem AskedInv.env {ts new : List Pc} {n : Nat} {e : Event} (hi : AskedInv s b ts)
    (hok : Punctual ⟨(s, b), ts⟩ (.env e)) (h : EnvStep s n e s' new) :
    AskedInv s' b (ts ++ new) := by
  cases h with
  | @read e reader new henv =>
    have hk : Keeps s b { s with reader } b := ⟨rfl, rfl, env_started henv, Or.inr ⟨rfl, id⟩⟩
    refine (hi.keeps hk rfl).append ?_
    intro pc hpc
    obtain ⟨h, -, rfl⟩ := List.mem_map.mp hpc
    rfl
  | tick =>
    rw [List.append_nil]
    exact hi.tick hok.1 hok.2
  | write =>
    rw [List.append_nil]
    exact hi.keeps ⟨rfl, rfl, id, Or.inr ⟨rfl, id⟩⟩ rfl
  | sent =>
    have hk : Keeps s b { s with sends := s.sends - 1 } b := ⟨rfl, rfl, id, Or.inr ⟨rfl, id⟩⟩
    exact (hi.keeps hk rfl).append (List.forall_mem_singleton.mpr rfl)
  | expired he hec => exact hi.expired he hec

theorem askedInv_start (data : Buffer) {timeoutElapsed : Nat} (now : Nat) (h : 0 < timeoutElapsed) :
    AskedInv (start data timeoutElapsed now).shared false [] := by
  have hne : timeoutElapsed ≠ 0 := Nat.ne_of_gt h
  refine ⟨?_, nofun⟩
  intro expiry he
  simp only [start, if_pos hne, Shared.doTimeoutCheck, Reader.start, if_true] at he ⊢
  cases he
  refine ⟨Nat.le_add_right _ _, Nat.le_refl _, Or.inr ?_⟩
  rw [Nat.add_sub_cancel, Nat.sub_self]
  exact Nat.zero_le _

/-- In every punctual run the timer is on its grid and the peer has been asked. -/
theorem askedInv {data : Buffer} {timeoutElapsed now : Nat} {s : Conf Watched Pc}
    {ok : Conf Watched Pc → Move Event Unit → Prop} (hok : ∀ s m, ok s m → Punctual s m)
    (h₀ : 0 < timeoutElapsed)
    (h : (watched P o).Reach ok (startWatched data timeoutElapsed now) s) :
    AskedInv s.shared.1 s.shared.2 s.threads := by
  refine Program.Reach.rule (I := fun sh ts => AskedInv sh.1 sh.2 ts) (askedInv_start data now h₀)
    ?_ ?_ h
  · intro sh ts e sh' new _ hi hm he
    obtain ⟨henv, hnote⟩ := Program.watch_env he
    rw [hnote]
    exact hi.env (hok _ _ hm) (env_step henv)
  · intro sh ts i l r sh' l' _ hi _ hl hex
    obtain ⟨hexec, hnote⟩ := Program.watch_exec hex
    rw [hnote]
    exact hi.step hl (exec_step hexec)

/-! ## A peer that answers is not dropped -/

/-- Of the timer there is one: its armed wait or one handler. -/
def Pc.timer (pc : Pc) : Option Unit := if pc.ofTimer then some () else none

/-- How many there are. -/
def timers (s : Shared) (ts : List Pc) : Nat :=
  s.checkTimeoutTimer.toList.length + tokens Pc.timer () ts

/-- A heartbeat is answered before the next check. -/
structure AnsweredInv (s : Shared) (b : Bool) (ts : List Pc) : Prop where
  one : timers s ts ≤ 1
  armed : ∀ expiry, s.checkTimeoutTimer = some expiry → b = true → s.now < expiry
  timer : .onTimer false ∈ ts → b = false

theorem tok_timer (pc : Pc) : tok Pc.timer () pc = if pc.ofTimer then 1 else 0 := by
  cases h : pc.ofTimer with
  | true => exact tok_of_eq (if_pos h)
  | false => exact tok_of_none (if_neg (Bool.eq_false_iff.mp h))

/-- A handler of the timer comes from one. -/
theorem Step.ofTimer (h : Step P o s i l s' l') (hl : l'.ofTimer = true) : l.ofTimer = true := by
  cases h <;> first | rfl | cases hl

theorem Step.timers_le (h : Step P o s i l s' l') {ts : List Pc} (hl : ts[i]? = some l)
    (h1 : timers s ts ≤ 1) : timers s' (ts.set i l') ≤ 1 := by
  have hset := tokens_set Pc.timer () hl l'
  rw [tok_timer, tok_timer] at hset
  unfold timers at h1 ⊢
  by_cases hc : l = .check
  · subst hc
    cases h with
    | check =>
      have hlen : s.doTimeoutCheck.checkTimeoutTimer.toList.length ≤ 1 := by
        cases s.doTimeoutCheck.checkTimeoutTimer <;> simp
      simp only [Pc.ofTimer, if_true, Bool.false_eq_true, if_false] at hset
      omega
  · rw [h.checkTimeoutTimer_eq hc]
    have hle : (if l'.ofTimer then 1 else 0) ≤ (if l.ofTimer then 1 else 0) := by
      by_cases ht : l'.ofTimer = true
      · rw [if_pos ht, if_pos (h.ofTimer ht)]
      · rw [if_neg ht]
        exact Nat.zero_le _
    omega

/-- Where a handler of the timer is, nothing is armed and no other handler. -/
theorem AnsweredInv.alone {ts : List Pc} (hi : AnsweredInv s b ts) (hl : ts[i]? = some l)
    (ht : l.ofTimer = true) :
    s.checkTimeoutTimer = none ∧ ∀ j pc, j ≠ i → ts[j]? = some pc → pc.ofTimer = false := by
  have h1 := hi.one
  unfold timers at h1
  have hmem := tok_le_tokens Pc.timer () (List.mem_of_getElem? hl)
  rw [tok_timer, if_pos ht] at hmem
  constructor
  · cases he : s.checkTimeoutTimer with
    | none => rfl
    | some expiry =>
      rw [he] at h1
      simp only [Option.toList_some, List.length_singleton] at h1
      omega
  · intro j pc hj hpc
    by_contra hno
    have htwo := tok_add_tok_le Pc.timer () hj hpc hl
    rw [tok_timer, tok_timer, if_pos (Bool.eq_true_of_not_eq_false hno), if_pos ht] at htwo
    omega

/-- Only the heartbeat sets the note. -/
theorem heartbeatSince_of_ne (hl : l ≠ .heart) (hb : heartbeatSince l b = true) : b = true := by
  unfold heartbeatSince at hb
  split at hb
  · exact absurd rfl hl
  · cases hb
  · cases hb
  · cases hb
  · exact hb

theorem AnsweredInv.step {ts : List Pc} (hi : AnsweredInv s b ts) (hl : ts[i]? = some l)
    (h : Step P o s i l s' l') : AnsweredInv s' (heartbeatSince l b) (ts.set i l') := by
  refine ⟨h.timers_le hl hi.one, ?_, ?_⟩
  · intro expiry he hb
    by_cases hc : l = .check
    · subst hc
      cases h with
      | check =>
        have hnone := (hi.alone hl rfl).1
        unfold Shared.doTimeoutCheck at he ⊢
        split at he
        · next hstart =>
          cases he
          rw [if_pos hstart]
          exact Nat.lt_add_of_pos_right (by decide)
        · rw [hnone] at he
          cases he
    · rw [h.checkTimeoutTimer_eq hc] at he
      by_cases hh : l = .heart
      · subst hh
        rw [(hi.alone hl rfl).1] at he
        cases he
      · rw [(h.keeps b).now]
        exact hi.armed expiry he (heartbeatSince_of_ne hh hb)
  · intro hmem
    by_contra hb
    rcases mem_set_cases hl hmem with hl' | ⟨j, hij, hj⟩
    · -- no step goes back to the beginning
      subst hl'
      cases h
    · by_cases hh : l = .heart
      · subst hh
        exact absurd ((hi.alone hl rfl).2 j _ (Ne.symm hij) hj) nofun
      · have hnote := hi.timer (List.mem_of_getElem? hj)
        have := heartbeatSince_of_ne hh (Bool.eq_true_of_not_eq_false hb)
        rw [hnote] at this
        cases this

/-- A handler of a read or of a send is none of the timer's. -/
theorem AnsweredInv.append {ts new : List Pc} (hi : AnsweredInv s b ts)
    (hnew : ∀ pc ∈ new, pc.ofTimer = false) : AnsweredInv s b (ts ++ new) := by
  have hzero : tokens Pc.timer () new = 0 := by
    refine tokens_eq_zero_iff.mpr fun pc hpc => ?_
    rw [Pc.timer, hnew pc hpc]
    exact nofun
  refine ⟨?_, hi.armed, ?_⟩
  · have h1 := hi.one
    unfold timers at h1 ⊢
    rw [tokens_append, hzero]
    exact h1
  · intro hmem
    rcases List.mem_append.mp hmem with hmem | hmem
    · exact hi.timer hmem
    · cases hnew _ hmem

theorem AnsweredInv.env {ts new : List Pc} {n : Nat} {e : Event} (hi : AnsweredInv s b ts)
    (hok : Punctual ⟨(s, b), ts⟩ (.env e) ∧ Prompt ⟨(s, b), ts⟩ (.env e))
    (h : EnvStep s n e s' new) : AnsweredInv s' b (ts ++ new) := by
  cases h with
  | @read e reader new henv =>
    have hr : AnsweredInv { s with reader } b ts := ⟨hi.one, hi.armed, hi.timer⟩
    refine hr.append ?_
    intro pc hpc
    obtain ⟨h, -, rfl⟩ := List.mem_map.mp hpc
    rfl
  | @tick d =>
    rw [List.append_nil]
    refine ⟨hi.one, ?_, hi.timer⟩
    intro expiry he hb
    have hd : d = 0 := hok.2 hb
    subst hd
    exact hi.armed expiry he hb
  | write =>
    rw [List.append_nil]
    exact ⟨hi.one, hi.armed, hi.timer⟩
  | sent =>
    have hr : AnsweredInv { s with sends := s.sends - 1 } b ts := ⟨hi.one, hi.armed, hi.timer⟩
    exact hr.append (List.forall_mem_singleton.mpr rfl)
  | @expired expiry ec he hec =>
    refine ⟨?_, nofun, ?_⟩
    · have h1 := hi.one
      unfold timers at h1 ⊢
      rw [he] at h1
      rw [tokens_append, tokens_cons, tokens_nil, tok_timer]
      simp only [Option.toList_some, List.length_singleton] at h1
      simp only [Option.toList_none, List.length_nil, Pc.ofTimer, if_true]
      omega
    · intro hmem
      rcases List.mem_append.mp hmem with hmem | hmem
      · exact hi.timer hmem
      · have hec' : ec = false := by
          cases List.mem_singleton.mp hmem
          rfl
        have hle : expiry ≤ s.now := hec.resolve_left (by rw [hec']; nofun)
        by_contra hb
        exact absurd (hi.armed expiry he (Bool.eq_true_of_not_eq_false hb)) (Nat.not_lt.mpr hle)

theorem answeredInv_start (data : Buffer) (timeoutElapsed now : Nat) :
    AnsweredInv (start data timeoutElapsed now).shared false [] := by
  refine ⟨?_, nofun, nofun⟩
  unfold timers
  rw [tokens_nil]
  cases (start data timeoutElapsed now).shared.checkTimeoutTimer <;> simp

/-- In every punctual run with a prompt peer, no check finds a heartbeat that is
not answered. -/
theorem answeredInv {data : Buffer} {timeoutElapsed now : Nat} {s : Conf Watched Pc}
    (h : (watched P o).Reach (fun s m => Punctual s m ∧ Prompt s m)
      (startWatched data timeoutElapsed now) s) :
    AnsweredInv s.shared.1 s.shared.2 s.threads := by
  refine Program.Reach.rule (I := fun sh ts => AnsweredInv sh.1 sh.2 ts)
    (answeredInv_start data timeoutElapsed now) ?_ ?_ h
  · intro sh ts e sh' new _ hi hm he
    obtain ⟨henv, hnote⟩ := Program.watch_env he
    rw [hnote]
    exact hi.env hm (env_step henv)
  · intro sh ts i l r sh' l' _ hi _ hl hex
    obtain ⟨hexec, hnote⟩ := Program.watch_exec hex
    rw [hnote]
    exact hi.step hl (exec_step hexec)

/-! ## A timeout that is long enough -/

/-- From one check to the next no client goes from half the timeout to more than
all of it. -/
theorem not_overdue_of_half {E now u : Nat} (hE : 5999 ≤ E)
    (h : totalMilliseconds (now - 1000 * timeoutCheckElapsed - u) ≤ E / 2) :
    ¬E < totalMilliseconds (now - u) := by
  unfold totalMilliseconds timeoutCheckElapsed at *
  omega

/-- The timeout is what it was at the start. -/
theorem timeoutElapsed_eq {data : Buffer} {timeoutElapsed now : Nat} {s : Conf Shared Pc}
    {ok : Conf Shared Pc → Move Event Unit → Prop}
    (h : (session P o).Reach ok (start data timeoutElapsed now) s) :
    s.shared.timeoutElapsed = timeoutElapsed := by
  refine Program.Reach.rule (I := fun sh _ => sh.timeoutElapsed = timeoutElapsed) ?_ ?_ ?_ h
  · unfold start Shared.doTimeoutCheck
    dsimp only
    split
    · split <;> rfl
    · rfl
  · intro sh ts e sh' new _ hi _ he
    rw [← hi]
    have hstep : EnvStep sh ts.length e sh' new := env_step he
    cases hstep <;> rfl
  · intro sh ts i l r sh' l' _ hi _ _ hex
    rw [((exec_step hex).keeps false).timeoutElapsed, hi]

theorem heartbeatFirst_of_le (data : Buffer) (now : Nat) {timeoutElapsed : Nat}
    (hE : 5999 ≤ timeoutElapsed) : HeartbeatFirst P o data timeoutElapsed now := by
  have hasked : ∀ s m, (watched P o).Reach Punctual (startWatched data timeoutElapsed now) s →
      StopsIdle s m → s.shared.2 = true := by
    intro s m h hm
    have hi := askedInv (fun _ _ hp => hp) (by omega) h
    have hto : s.shared.1.timeoutElapsed = timeoutElapsed := timeoutElapsed_eq h.of_watch
    cases m with
    | env e => exact hm.elim
    | run i r =>
      obtain ⟨hl, -, hover⟩ := hm
      rcases hi.timer _ (List.mem_of_getElem? hl) with hb | hhalf
      · exact hb
      · unfold Shared.Overdue at hover
        rw [hto] at hhalf hover
        exact absurd hover (not_overdue_of_half hE hhalf)
  refine ⟨hasked, fun s m h hm => ?_⟩
  have hb := hasked s m (h.mono fun _ _ hp => hp.1) hm
  cases m with
  | env e => exact hm.elim
  | run i r =>
    rw [(answeredInv h).timer (List.mem_of_getElem? hm.1)] at hb
    cases hb

/-! ## A timeout that is too short -/

/-- A moment of a session that reads nothing. -/
def moment (data : Buffer) (timeoutElapsed begun now updateTime sends : Nat) (timer : Option Nat)
    (refreshed : List Nat) (ts : List Pc) : Conf Watched Pc where
  shared :=
    ({ reader := (Reader.start data).shared
       isLogin := false
       updateTime
       timeoutElapsed
       checkTimeoutTimer := timer
       sends
       now
       heard := begun
       refreshed
       callouts := [] }, false)
  threads := ts

theorem startWatched_eq (data : Buffer) {timeoutElapsed : Nat} (now : Nat) (h : 0 < timeoutElapsed) :
    startWatched data timeoutElapsed now
      = moment data timeoutElapsed now now now 0 (some (now + 1000 * timeoutCheckElapsed)) [] [] := by
  simp only [startWatched, start, if_pos (Nat.ne_of_gt h), Shared.doTimeoutCheck, Reader.start,
    if_true, moment]

section
variable {data : Buffer} {timeoutElapsed begun now updateTime sends expiry d : Nat}
  {refreshed : List Nat} {ts : List Pc}

theorem moment_tick (hts : ∀ pc ∈ ts, pc.ofTimer = false) (hd : now + d ≤ expiry) :
    (watched P o).Step Punctual
      (moment data timeoutElapsed begun now updateTime sends (some expiry) refreshed ts)
      (moment data timeoutElapsed begun (now + d) updateTime sends (some expiry) refreshed ts) := by
  refine ⟨.env (.tick d), ⟨hts, ?_⟩, ?_⟩
  · intro e he
    cases he
    exact hd
  · simp only [Program.step, watched, Program.watch, session, env, moment, Option.map_some,
      List.append_nil]

theorem moment_expired (hle : expiry ≤ now) : (watched P o).Step Punctual
    (moment data timeoutElapsed begun now updateTime sends (some expiry) refreshed ts)
    (moment data timeoutElapsed begun now updateTime sends none refreshed
      (ts ++ [.onTimer false])) := by
  refine ⟨.env (.timer false), trivial, ?_⟩
  simp only [Program.step, watched, Program.watch, session, env, moment, Option.map_some,
    if_pos (Or.inr hle : false = true ∨ expiry ≤ now)]

end

/-- A send is completed half the timeout before the first check. That check is too
early for a heartbeat, and the next one too late. -/
theorem exists_unasked (P : Protobuf) (o : ByteOrder) (data : Buffer) (now : Nat)
    {timeoutElapsed : Nat} (h₀ : 0 < timeoutElapsed) (hE : timeoutElapsed ≤ 5998) :
    ∃ s, (watched P o).Reach Punctual (startWatched data timeoutElapsed now) s ∧
      StopsIdle s (.run 2 ()) ∧ s.shared.2 = false := by
  rw [startWatched_eq data now h₀]
  obtain ⟨half, hhalf⟩ : ∃ half, half = timeoutElapsed / 2 := ⟨_, rfl⟩
  obtain ⟨t, ht⟩ : ∃ t, t = now + 1000 * (3000 - half) := ⟨_, rfl⟩
  -- a send is started, and completed at `t`
  have hsend : (watched P o).Step Punctual
      (moment data timeoutElapsed now now now 0 (some (now + 3000000)) [] [])
      (moment data timeoutElapsed now now now 1 (some (now + 3000000)) [] []) :=
    ⟨.env .write, trivial, rfl⟩
  have hwait : (watched P o).Step Punctual
      (moment data timeoutElapsed now now now 1 (some (now + 3000000)) [] [])
      (moment data timeoutElapsed now t now 1 (some (now + 3000000)) [] []) := by
    rw [ht]
    exact moment_tick nofun (by omega)
  have hsent : (watched P o).Step Punctual
      (moment data timeoutElapsed now t now 1 (some (now + 3000000)) [] [])
      (moment data timeoutElapsed now t now 0 (some (now + 3000000)) [] [.onSend false]) :=
    ⟨.env (.sent false), trivial, rfl⟩
  have hupdate : (watched P o).Step Punctual
      (moment data timeoutElapsed now t now 0 (some (now + 3000000)) [] [.onSend false])
      (moment data timeoutElapsed now t t 0 (some (now + 3000000)) [t] [.done]) :=
    ⟨.run 0 (), trivial, rfl⟩
  -- the first check
  have hfirst : (watched P o).Step Punctual
      (moment data timeoutElapsed now t t 0 (some (now + 3000000)) [t] [.done])
      (moment data timeoutElapsed now (t + 1000 * half) t 0 (some (now + 3000000)) [t] [.done]) :=
    moment_tick (List.forall_mem_singleton.mpr rfl) (by omega)
  have hexpired : (watched P o).Step Punctual
      (moment data timeoutElapsed now (t + 1000 * half) t 0 (some (now + 3000000)) [t] [.done])
      (moment data timeoutElapsed now (t + 1000 * half) t 0 none [t] [.done, .onTimer false]) :=
    moment_expired (by omega)
  have hidle : totalMilliseconds (t + 1000 * half - t) = half := by
    unfold totalMilliseconds
    omega
  have hcheck : (watched P o).Step Punctual
      (moment data timeoutElapsed now (t + 1000 * half) t 0 none [t] [.done, .onTimer false])
      (moment data timeoutElapsed now (t + 1000 * half) t 0 none [t] [.done, .check]) := by
    refine ⟨.run 1 (), trivial, ?_⟩
    have hover : ¬timeoutElapsed < half := by omega
    have hquiet : ¬timeoutElapsed / 2 < half := by omega
    simp only [Program.step, watched, Program.watch, session, exec, moment, Shared.Overdue, hidle,
      if_neg hover, if_neg hquiet]
    rfl
  have harm : (watched P o).Step Punctual
      (moment data timeoutElapsed now (t + 1000 * half) t 0 none [t] [.done, .check])
      (moment data timeoutElapsed now (t + 1000 * half) t 0 (some (t + 1000 * half + 3000000)) [t]
        [.done, .done]) := ⟨.run 1 (), trivial, rfl⟩
  -- the second check
  have hsecond : (watched P o).Step Punctual
      (moment data timeoutElapsed now (t + 1000 * half) t 0 (some (t + 1000 * half + 3000000)) [t]
        [.done, .done])
      (moment data timeoutElapsed now (t + 1000 * half + 3000000) t 0
        (some (t + 1000 * half + 3000000)) [t] [.done, .done]) :=
    moment_tick (by decide) (Nat.le_refl _)
  have hagain : (watched P o).Step Punctual
      (moment data timeoutElapsed now (t + 1000 * half + 3000000) t 0
        (some (t + 1000 * half + 3000000)) [t] [.done, .done])
      (moment data timeoutElapsed now (t + 1000 * half + 3000000) t 0 none [t]
        [.done, .done, .onTimer false]) := moment_expired (Nat.le_refl _)
  refine ⟨_, (((((((((ReflTransGen.single hsend).tail hwait).tail hsent).tail hupdate).tail
    hfirst).tail hexpired).tail hcheck).tail harm).tail hsecond).tail hagain, ?_, rfl⟩
  refine ⟨rfl, rfl, ?_⟩
  show timeoutElapsed < totalMilliseconds (t + 1000 * half + 3000000 - t)
  unfold totalMilliseconds
  omega

/-- **The peer is asked before it is dropped exactly if the timeout is 5999 ms or
longer.** -/
theorem heartbeatFirst_iff (P : Protobuf) (o : ByteOrder) (data : Buffer) (now : Nat)
    {timeoutElapsed : Nat} (h₀ : 0 < timeoutElapsed) :
    HeartbeatFirst P o data timeoutElapsed now ↔ 5999 ≤ timeoutElapsed := by
  refine ⟨fun h => ?_, heartbeatFirst_of_le data now⟩
  by_contra hE
  obtain ⟨s, hreach, hstop, hb⟩ := exists_unasked P o data now h₀ (by omega)
  have := h.asked s _ hreach hstop
  rw [hb] at this
  cases this

/-- A timeout of a minute. -/
theorem heartbeatFirst_minute :
    HeartbeatFirst knownFields .little zeroed 60000 0 ↔ 5999 ≤ 60000 :=
  heartbeatFirst_iff knownFields .little zeroed 0 (by decide)

/-- **The peer is not always asked**: with a timeout of 1 s the first check drops
every client it finds quiet. -/
theorem heartbeatFirst_fails : ¬∀ (P : Protobuf) (o : ByteOrder) (data : Buffer)
    (timeoutElapsed now : Nat), 0 < timeoutElapsed →
    HeartbeatFirst P o data timeoutElapsed now := by
  intro h
  have hreach : (watched knownFields .little).Reach Punctual (startWatched zeroed 1000 0)
      (moment zeroed 1000 0 3000000 0 0 none [] [.onTimer false]) := by
    rw [startWatched_eq zeroed 0 (by decide)]
    have hwait : (watched knownFields .little).Step Punctual
        (moment zeroed 1000 0 0 0 0 (some 3000000) [] [])
        (moment zeroed 1000 0 (0 + 3000000) 0 0 (some 3000000) [] []) :=
      moment_tick nofun (by decide)
    exact (ReflTransGen.single hwait).tail (moment_expired (by decide))
  exact Bool.false_ne_true ((h knownFields .little zeroed 1000 0 (by decide)).asked _ (.run 0 ())
    hreach ⟨rfl, rfl, by decide⟩)

end CiaServer.Net.Session
