import CiaServer.Interleave.Selected
import CiaServer.Interleave.Simulation
import CiaServer.Net.Login

/-!
# Which calls a session asks for

A session runs its reader's handlers among its own (`simulates`): what it reaches
is, on the reader's part, reached by `Reader`. `Session` forgets the body of a
request once it has been dealt with, `Reader` does not, so the frames of the
stream can be counted against what was given to `cti_callout`.

`handsOver`: a call is handed to the card for a `CIA_CALL_REQUEST` frame of the
stream and for none twice; and for each, once nothing is left to do but for handlers
that wait in `do_write`, as long as they do not keep all io threads waiting.

Mirroring notes:
- A client has one buffer for each io thread. One is out from `async_send` to the
  completion handler, and `do_write` waits while all are.
- A handler that waits keeps its io thread. Where no io thread is left, no read
  completes and no handler runs.
-/

namespace CiaServer.Net.Session

open Wire Interleave
open Reader (Handler Request dealRequest handedOut)

/-- What a call request says about the call. -/
structure Call where
  transId : Bytes
  authCode : Bytes
  pn : Bytes
  deriving DecidableEq, Repr

def Callout.call (k : Callout) : Call :=
  { transId := k.transId, authCode := k.authCode, pn := k.pn }

/-- The call a request asks for. -/
def callOf : Request → Option Call
  | .callOut transId authCode pn => some { transId, authCode, pn }
  | _ => none

/-- The calls the frames of a stream ask for, in their order. -/
def callRequests (P : Protobuf) (stream : Bytes) : List Call :=
  (bodies headerLength maxBodyLength stream).filterMap fun body => callOf (dealRequest P body)

/-- The call a handler of the reader has found in its body. -/
def wants : Handler → Option Call
  | .dealt _ request => callOf request
  | _ => none

/-- The call a handler of the session has found and not handed over. -/
def Pc.wants : Pc → Option Call
  | .read h => Session.wants h
  | _ => none

/-! ## The reader inside the session -/

/-- Which handler of the reader alone a handler of the session stands for. -/
def Stands : Pc → Option Handler → Prop
  | .read h, o => o = some h
  | .loginSent, o => ∃ body, o = some (.dealt body .login)
  | .done, o => o = none ∨ ∃ body request, o = some (.dealt body request)
  | _, o => o = none

/-- Of every call, as many were found as have been handed over or are about to be. -/
structure Follows (s : Shared) (ps : List (Pc × Option Handler)) : Prop where
  stands : ∀ p ∈ ps, Stands p.1 p.2
  conserved : ∀ c, tokens (fun k => some (Callout.call k)) c s.callouts +
    tokens (fun p : Pc × Option Handler => p.1.wants) c ps =
    tokens (fun p : Pc × Option Handler => p.2.bind wants) c ps

/-- The reader alone, with the handlers of the session that are its own. -/
def Simulates (s : Conf Shared Pc) (t : Conf Reader.Session Handler) : Prop :=
  ∃ ps : List (Pc × Option Handler), s.threads = ps.map Prod.fst ∧
    t = ⟨s.shared.reader, ps.filterMap Prod.snd⟩ ∧ Follows s.shared ps

variable {P : Protobuf} {o : ByteOrder} {s s' : Shared} {i : Nat} {l l' : Pc}

@[simp] theorem Shared.afterRead_reader (s : Shared) (h : Handler) (reader : Reader.Session) :
    (s.afterRead h reader).reader = reader := by
  unfold Shared.afterRead
  split <;> rfl

/-- One handler goes on, and hands over what it no longer wants. -/
theorem Follows.set {ps : List (Pc × Option Handler)} {p q : Pc × Option Handler}
    (hF : Follows s ps) (hp : ps[i]? = some p) (hq : Stands q.1 q.2)
    (hc : ∀ c, tokens (fun k => some (Callout.call k)) c s'.callouts +
      tok (fun p : Pc × Option Handler => p.1.wants) c q +
      tok (fun p : Pc × Option Handler => p.2.bind wants) c p =
      tokens (fun k => some (Callout.call k)) c s.callouts +
      tok (fun p : Pc × Option Handler => p.1.wants) c p +
      tok (fun p : Pc × Option Handler => p.2.bind wants) c q) :
    Follows s' (ps.set i q) := by
  refine ⟨?_, ?_⟩
  · intro r hr
    rcases mem_set_cases hp hr with rfl | ⟨j, _, hj⟩
    · exact hq
    · exact hF.stands r (List.mem_of_getElem? hj)
  · intro c
    have h₁ := tokens_set (fun p : Pc × Option Handler => p.1.wants) c hp q
    have h₂ := tokens_set (fun p : Pc × Option Handler => p.2.bind wants) c hp q
    have h₃ := hF.conserved c
    have h₄ := hc c
    omega

/-- New handlers want nothing that the reader's do not want. -/
theorem Follows.append {ps new : List (Pc × Option Handler)} (hF : Follows s ps)
    (hs : ∀ p ∈ new, Stands p.1 p.2) (hc : s'.callouts = s.callouts)
    (hw : ∀ p ∈ new, p.1.wants = p.2.bind wants) : Follows s' (ps ++ new) := by
  refine ⟨?_, ?_⟩
  · intro p hp
    rcases List.mem_append.mp hp with hp | hp
    · exact hF.stands p hp
    · exact hs p hp
  · intro c
    have hnew : tokens (fun p : Pc × Option Handler => p.1.wants) c new =
        tokens (fun p : Pc × Option Handler => p.2.bind wants) c new := by
      rw [tokens, tokens, List.map_congr_left fun p hp => ?_]
      simp only [tok, hw p hp]
    have hold := hF.conserved c
    rw [hc, tokens_append, tokens_append, hnew]
    omega

theorem Follows.simulates {ps : List (Pc × Option Handler)} {q : Pc × Option Handler}
    (hF : Follows s (ps.set i q)) :
    Simulates ⟨s, (ps.map Prod.fst).set i q.1⟩ ⟨s.reader, (ps.set i q).filterMap Prod.snd⟩ :=
  ⟨ps.set i q, List.map_set.symm, rfl, hF⟩

/-- The reader alone stands still. -/
theorem Follows.stay {ps : List (Pc × Option Handler)} {h : Option Handler} (hF : Follows s ps)
    (hp : ps[i]? = some (l, h)) (hr : s'.reader = s.reader) (hq : Stands l' h)
    (hc : ∀ c, tokens (fun k => some (Callout.call k)) c s'.callouts + tok Pc.wants c l' =
      tokens (fun k => some (Callout.call k)) c s.callouts + tok Pc.wants c l) :
    ∃ t', (Reader.reader P o).Reach (fun _ _ => True) ⟨s.reader, ps.filterMap Prod.snd⟩ t' ∧
      Simulates ⟨s', (ps.map Prod.fst).set i l'⟩ t' := by
  have hF' : Follows s' (ps.set i (l', h)) := hF.set hp hq fun c => by
    have := hc c
    simp only [tok] at this ⊢
    omega
  refine ⟨_, ?_, hF'.simulates⟩
  rw [hr, filterMap_set_of_eq hp (rfl : Prod.snd (l', h) = h)]
  exact Relation.ReflTransGen.refl

/-- A `stop()` that is not the reader's. -/
theorem Follows.stopped {ps : List (Pc × Option Handler)} (hF : Follows s ps)
    (hp : ps[i]? = some (l, none)) (hl : l.wants = none) (hq : Stands l' none)
    (hl' : l'.wants = none) :
    ∃ t', (Reader.reader P o).Reach (fun _ _ => True) ⟨s.reader, ps.filterMap Prod.snd⟩ t' ∧
      Simulates ⟨s.stop, (ps.map Prod.fst).set i l'⟩ t' := by
  have hF' : Follows s.stop (ps.set i (l', none)) := hF.set hp hq fun c => by
    simp only [tok, hl, hl']
    rfl
  refine ⟨_, ?_, hF'.simulates⟩
  rw [filterMap_set_of_eq hp (rfl : Prod.snd (l', (none : Option Handler)) = none)]
  have h : (Reader.reader P o).env s.reader (ps.filterMap Prod.snd).length .stopElsewhere =
    some (s.stop.reader, []) := rfl
  have hstop := Program.reach_env h
  rw [List.append_nil] at hstop
  exact hstop

/-- A step of a handler is at most one step of the reader alone. -/
theorem Step.simulates {ps : List (Pc × Option Handler)} (h : Step P o s i l s' l')
    (hF : Follows s ps) (hl : (ps.map Prod.fst)[i]? = some l) :
    ∃ t', (Reader.reader P o).Reach (fun _ _ => True) ⟨s.reader, ps.filterMap Prod.snd⟩ t' ∧
      Simulates ⟨s', (ps.map Prod.fst).set i l'⟩ t' := by
  rw [List.getElem?_map, Option.map_eq_some_iff] at hl
  obtain ⟨⟨_, org⟩, hp, rfl⟩ := hl
  have hst := hF.stands _ (List.mem_of_getElem? hp)
  cases h with
  | @read a a' r reader hstep =>
    cases hst
    -- both sides take the step
    have hF' : Follows (s.afterRead a reader) (ps.set i (.read a', some a')) :=
      hF.set hp rfl fun c => by
        have hsame : ∀ b : Handler, tok (fun p : Pc × Option Handler => p.1.wants) c
            (.read b, some b) = tok (fun p : Pc × Option Handler => p.2.bind wants) c
            (.read b, some b) := fun _ => rfl
        rw [Shared.afterRead_callouts, hsame, hsame]
        omega
    obtain ⟨j, hj, hset⟩ := filterMap_set_of_some hp (rfl : Prod.snd (Pc.read a, some a) = some a)
      (rfl : Prod.snd (Pc.read a', some a') = some a')
    refine ⟨_, ?_, hF'.simulates⟩
    rw [hset, Shared.afterRead_reader]
    exact Program.reach_exec hj hstep
  | @login body =>
    cases hst
    exact hF.stay hp rfl ⟨body, rfl⟩ fun c => rfl
  | @heartResponse body =>
    cases hst
    exact hF.stay hp rfl (Or.inr ⟨body, _, rfl⟩) fun c => rfl
  | @callOut body transId authCode pn =>
    cases hst
    refine hF.stay hp rfl (Or.inr ⟨body, _, rfl⟩) fun c => ?_
    -- what was wanted is handed over
    have hk : tok (fun k => some (Callout.call k)) c
        { transId, authCode, pn, isLogin := s.isLogin } =
        tok Pc.wants c (.read (.dealt body (.callOut transId authCode pn))) := rfl
    have hd : tok Pc.wants c .done = 0 := rfl
    rw [tokens_cons, hk, hd]
    omega
  | @ignored body =>
    cases hst
    exact hF.stay hp rfl (Or.inr ⟨body, _, rfl⟩) fun c => rfl
  | loginSent =>
    obtain ⟨body, rfl⟩ := hst
    exact hF.stay hp rfl (Or.inr ⟨body, _, rfl⟩) fun c => rfl
  | sendFailed =>
    cases hst
    exact hF.stopped hp rfl (Or.inl rfl) rfl
  | sendDone =>
    cases hst
    exact hF.stay hp rfl (Or.inl rfl) fun c => rfl
  | timerFailed =>
    cases hst
    exact hF.stopped hp rfl (Or.inl rfl) rfl
  | timedOut =>
    cases hst
    exact hF.stopped hp rfl rfl rfl
  | quiet =>
    cases hst
    exact hF.stay hp rfl rfl fun c => rfl
  | busy =>
    cases hst
    exact hF.stay hp rfl rfl fun c => rfl
  | heart =>
    cases hst
    exact hF.stay hp rfl rfl fun c => rfl
  | check =>
    cases hst
    refine hF.stay hp ?_ (Or.inl rfl) fun c => ?_
    · unfold Shared.doTimeoutCheck
      split <;> rfl
    · unfold Shared.doTimeoutCheck
      split <;> rfl

/-- A move of the rest of the world is at most one of the reader alone. -/
theorem EnvStep.simulates {ps : List (Pc × Option Handler)} {n : Nat} {e : Event} {new : List Pc}
    (h : EnvStep s n e s' new) (hF : Follows s ps) (hne : e ≠ .read .stopElsewhere) :
    ∃ t', (Reader.reader P o).Reach (fun _ _ => True) ⟨s.reader, ps.filterMap Prod.snd⟩ t' ∧
      Simulates ⟨s', ps.map Prod.fst ++ new⟩ t' := by
  -- handlers that are not the reader's
  have hown : ∀ {s' : Shared} {new : List Pc}, s'.reader = s.reader → s'.callouts = s.callouts →
      (∀ l ∈ new, Stands l none ∧ l.wants = none) →
      ∃ t', (Reader.reader P o).Reach (fun _ _ => True) ⟨s.reader, ps.filterMap Prod.snd⟩ t' ∧
        Simulates ⟨s', ps.map Prod.fst ++ new⟩ t' := by
    intro s' new hr hc hnew
    refine ⟨_, Relation.ReflTransGen.refl, ps ++ new.map fun l => (l, none), ?_, ?_, ?_⟩
    · show ps.map Prod.fst ++ new = _
      rw [List.map_append, List.map_map]
      exact congrArg _ (List.map_id new).symm
    · have hnone : (new.map fun l => (l, (none : Option Handler))).filterMap Prod.snd = [] := by
        rw [List.filterMap_map]
        exact List.filterMap_eq_nil_iff.mpr fun _ _ => rfl
      rw [List.filterMap_append, hnone, List.append_nil, hr]
    · refine hF.append ?_ hc ?_
      · intro p hp
        obtain ⟨l, hl, rfl⟩ := List.mem_map.mp hp
        exact (hnew l hl).1
      · intro p hp
        obtain ⟨l, hl, rfl⟩ := List.mem_map.mp hp
        exact (hnew l hl).2
  cases h with
  | @read e reader new h =>
    refine ⟨_, Program.reach_env (a := e) h, ps ++ new.map fun a => (.read a, some a), ?_, ?_, ?_⟩
    · rw [List.map_append, List.map_map]
      rfl
    · rw [List.filterMap_append, List.filterMap_map]
      congr 1
      exact congrArg _ (List.filterMap_some (l := new)).symm
    · refine hF.append ?_ rfl ?_
      · intro p hp
        obtain ⟨a, _, rfl⟩ := List.mem_map.mp hp
        rfl
      · intro p hp
        obtain ⟨a, _, rfl⟩ := List.mem_map.mp hp
        rfl
  | tick => exact hown rfl rfl nofun
  | write => exact hown rfl rfl nofun
  | sent =>
    refine hown rfl rfl ?_
    rintro l (_ | ⟨_, h⟩)
    · exact ⟨rfl, rfl⟩
    · cases h
  | expired =>
    refine hown rfl rfl ?_
    rintro l (_ | ⟨_, h⟩)
    · exact ⟨rfl, rfl⟩
    · cases h

/-- **The reader runs inside the session**: whatever the handlers of the session do,
its reader has done by itself. -/
theorem simulates {ok : Conf Shared Pc → Move Event Unit → Prop} {data : Buffer}
    {timeoutElapsed now : Nat} {s : Conf Shared Pc}
    (h : (session P o).Reach ok (start data timeoutElapsed now) s) :
    ∃ t, Reader.Reachable P o data t ∧ Simulates s t := by
  refine Program.Reach.simulation (R := Simulates) ?_ ?_ h
  · refine ⟨[], rfl, ?_, nofun, fun c => ?_⟩
    · simp only [start, Shared.doTimeoutCheck]
      split
      · split <;> rfl
      · rfl
    · simp only [start, Shared.doTimeoutCheck]
      split
      · split <;> rfl
      · rfl
  · rintro s t m s' _ ⟨ps, hts, rfl, hF⟩ _ hst
    rcases Program.step_cases hst with ⟨e, sh, new, _, he, rfl⟩ | ⟨i, r, l, sh, l', _, hl, he, rfl⟩
    · rw [hts]
      refine (env_step he).simulates hF ?_
      rintro rfl
      cases he
    · rw [hts] at hl ⊢
      exact (exec_step he).simulates hF hl

/-! ## Calls and frames -/

/-- What a handler of the reader found is in its body. -/
theorem dealt_of_reachable {data : Buffer} {t : Conf Reader.Session Handler}
    (h : Reader.Reachable P o data t) {body : Bytes} {request : Request}
    (hm : Handler.dealt body request ∈ t.threads) : request = dealRequest P body := by
  refine Program.Reach.rule (I := fun _ ts => ∀ body request, Handler.dealt body request ∈ ts →
    request = dealRequest P body) ?_ ?_ ?_ h body request hm
  · exact fun _ _ hm => nomatch hm
  · intro sh ts e sh' new _ hi _ he body request hm
    rcases List.mem_append.mp hm with hm | hm
    · exact hi body request hm
    · cases Reader.env_step (n := ts.length) he with
      | arrive => cases hm
      | finish => cases hm
      | deliver => cases hm
      | stopElsewhere => cases hm
      | @complete r =>
        have hg := Reader.given_handler r false
        rw [← List.mem_singleton.mp hm] at hg
        cases hg
      | @fail r =>
        have hg := Reader.given_handler r true
        rw [← List.mem_singleton.mp hm] at hg
        cases hg
  · intro sh ts i l r sh' l' _ hi _ hl he body request hm
    rcases mem_set_cases hl hm with rfl | ⟨j, _, hj⟩
    · cases l with
      | deal chMsg =>
        cases he
        rfl
      | onHeader ec =>
        cases ec with
        | true => cases he
        | false =>
          simp only [Reader.reader, Reader.exec, Option.some.injEq, Prod.mk.injEq] at he
          have hne := he.2
          split at hne <;> cases hne
      | onBody ec => cases ec <;> cases he
      | readBody => cases he
      | readHeader chMsg => cases he
      | dealt body request => cases he
      | stop => cases he
      | done => cases he
    · exact hi body request (List.mem_of_getElem? hj)

/-- The calls that the bodies handed out ask for. -/
theorem filterMap_handedOut (P : Protobuf) (ts : List Handler) :
    (handedOut ts).filterMap (fun body => callOf (dealRequest P body)) =
      ts.filterMap fun a => a.given.bind fun body => callOf (dealRequest P body) := by
  rw [handedOut, List.filterMap_filterMap]

/-- What the handlers found are calls that frames of the stream ask for. -/
theorem tokens_wants_le {data : Buffer} {t : Conf Reader.Session Handler}
    (h : Reader.Reachable P o data t) (c : Call) :
    tokens wants c t.threads ≤ (callRequests P t.shared.stream).count c := by
  have hfound : (t.threads.filterMap wants).Sublist
      ((handedOut t.threads).filterMap fun body => callOf (dealRequest P body)) := by
    rw [filterMap_handedOut]
    refine filterMap_sublist ?_
    intro a ha b hb
    cases a with
    | dealt body request =>
      show callOf (dealRequest P body) = some b
      rw [← dealt_of_reachable h ha]
      exact hb
    | _ => cases hb
  have hprefix := (Reader.handedOut_prefix h).sublist.filterMap
    fun body => callOf (dealRequest P body)
  rw [← count_filterMap_eq_tokens]
  exact (hfound.trans hprefix).count_le c

/-! ## At rest -/

/-- A move of the server itself: a piece of a read, a completion, a step of a
handler. -/
def internal : Move Event Unit → Bool
  | .env (.read e) => Reader.internal (.env e)
  | .env _ => false
  | .run _ _ => true

/-- A handler that calls `do_write` next. -/
def Pc.writes : Pc → Bool
  | .read (.dealt _ .login) => true
  | .heart => true
  | _ => false

/-- A send is complete and its handler has still to put the buffer back. -/
def Pc.putsBack : Pc → Bool
  | .onSend _ => true
  | _ => false

/-- All `T` buffers of the client are out. -/
def NoBuffer (T : Nat) (s : Conf Shared Pc) : Prop :=
  T ≤ s.shared.sends + s.threads.countP Pc.putsBack

instance (T : Nat) (s : Conf Shared Pc) : Decidable (NoBuffer T s) := inferInstanceAs (Decidable (_ ≤ _))

/-- How many handlers wait in `do_write` for a buffer. -/
def waiting (T : Nat) (s : Conf Shared Pc) : Nat :=
  if NoBuffer T s then s.threads.countP Pc.writes else 0

/-- A move that is held up: the handler waits for a buffer, or there is no io thread left to
make it, `n` of the `T` being kept waiting outside this session. -/
def HeldUp (T n : Nat) (s : Conf Shared Pc) (m : Move Event Unit) : Prop :=
  T ≤ waiting T s + n ∨
    NoBuffer T s ∧ ∃ i l, m = .run i () ∧ s.threads[i]? = some l ∧ l.writes = true

/-- Nothing happens unless the peer or the card sends, a send completes or the
timer expires. -/
def Quiet (P : Protobuf) (o : ByteOrder) (T n : Nat) (s : Conf Shared Pc) : Prop :=
  ∀ m, internal m = true → (session P o).step s m = none ∨ HeldUp T n s m

/-- At rest, with an io thread left, nothing comes in. -/
theorem Quiet.env {T n : Nat} {s : Conf Shared Pc} (hq : Quiet P o T n s)
    (hleft : waiting T s + n < T) {e : Event} (he : internal (.env e) = true) :
    (session P o).step s (.env e) = none := by
  rcases hq (.env e) he with h | hall | ⟨_, _, _, hm, _⟩
  · exact h
  · omega
  · cases hm

/-- Nor can a handler go on that does not call `do_write`. -/
theorem Quiet.exec {T n : Nat} {s : Conf Shared Pc} (hq : Quiet P o T n s)
    (hleft : waiting T s + n < T) {l : Pc} (hl : l ∈ s.threads) :
    l.writes = true ∨ ∃ i, exec P o s.shared i l () = none := by
  obtain ⟨i, hi⟩ := List.mem_iff_getElem?.mp hl
  rcases hq (.run i ()) rfl with h | hall | ⟨_, j, m, hm, hj, hw⟩
  · simp only [Program.step, hi, session, Option.map_eq_none_iff] at h
    exact Or.inr ⟨i, h⟩
  · omega
  · cases hm
    cases hi.symm.trans hj
    exact Or.inl hw

/-- What a handler that calls `do_write` has found is no call request. -/
theorem Pc.wants_of_writes {l : Pc} (h : l.writes = true) : l.wants = none := by
  unfold Pc.writes at h
  split at h
  · rfl
  · rfl
  · cases h

/-- Only a handler that is done cannot go on. -/
theorem exec_read_none {h : Handler} (he : exec P o s i (.read h) () = none) : h = .done := by
  cases h with
  | onHeader ec => cases ec <;> cases he
  | onBody ec => cases ec <;> cases he
  | dealt body request => cases request <;> cases he
  | done => rfl
  | _ => cases he

/-- A session at rest has its reader at rest. -/
theorem Quiet.reader {T n : Nat} {ps : List (Pc × Option Handler)} (hF : Follows s ps)
    (hq : Quiet P o T n ⟨s, ps.map Prod.fst⟩) (hleft : waiting T ⟨s, ps.map Prod.fst⟩ + n < T) :
    Reader.Quiet P o ⟨s.reader, ps.filterMap Prod.snd⟩ := by
  intro m hm
  cases m with
  | env e =>
    have h := hq.env (e := .read e) hleft hm
    have hne : e ≠ .stopElsewhere := by
      rintro rfl
      cases hm
    simp only [Program.step, session, Option.map_eq_none_iff] at h
    simp only [Program.step, Reader.reader, Option.map_eq_none_iff]
    cases e with
    | stopElsewhere => exact absurd rfl hne
    | _ => exact Option.map_eq_none_iff.mp h
  | run j r =>
    simp only [Program.step]
    split
    · rfl
    · next a ha =>
      rw [Option.map_eq_none_iff]
      obtain ⟨p, hp, hpa⟩ := List.mem_filterMap.mp (List.mem_of_getElem? ha)
      have hst := hF.stands p hp
      rw [hpa] at hst
      obtain ⟨l, org⟩ := p
      cases l with
      | read b =>
        cases hst
        by_cases hw : (Pc.read a).writes = true
        · -- its request is dealt with, as far as the reader goes
          unfold Pc.writes at hw
          split at hw
          · next h => cases h; rfl
          · next h => cases h
          · cases hw
        · obtain ⟨i, he⟩ := (hq.exec hleft (List.mem_map_of_mem hp)).resolve_left hw
          rw [exec_read_none he]
          rfl
      | loginSent =>
        obtain ⟨body, hb⟩ := hst
        cases hb
        rfl
      | done =>
        rcases hst with hb | ⟨body, request, hb⟩ <;> cases hb
        rfl
      | _ => cases hst

/-! ## The session comes to rest -/

/-- What is left to do for a handler. -/
def Pc.work : Pc → Nat
  | .read h => 3 * h.work + 2
  | .onTimer _ => 3
  | .heart => 2
  | .loginSent => 1
  | .onSend _ => 1
  | .check => 1
  | .done => 0

/-- What is left to do for the armed read and the bytes that have come. -/
def readWork (s : Reader.Session) : Nat :=
  8 * s.unread.length + s.reading.elim 0 Reader.AsyncRead.work

/-- A bound on the moves the server can make by itself. -/
def work (s : Shared) (ts : List Pc) : Nat := 3 * readWork s.reader + (ts.map Pc.work).sum

/-- A step of a handler leaves less to do. -/
theorem Step.work_lt {data : Buffer} {ps : List (Pc × Option Handler)}
    (hr : Reader.Reachable P o data ⟨s.reader, ps.filterMap Prod.snd⟩) (hF : Follows s ps)
    (h : Step P o s i l s' l') (hl : (ps.map Prod.fst)[i]? = some l) :
    work s' ((ps.map Prod.fst).set i l') < work s (ps.map Prod.fst) := by
  have hset := sum_map_set Pc.work hl l'
  -- a step that leaves the reads alone
  have hother : s'.reader.unread = s.reader.unread → s'.reader.reading = s.reader.reading →
      l'.work < l.work → work s' ((ps.map Prod.fst).set i l') < work s (ps.map Prod.fst) := by
    intro hu hg hw
    unfold work readWork
    rw [hu, hg]
    omega
  cases h with
  | @read a a' r reader hstep =>
    rw [List.getElem?_map, Option.map_eq_some_iff] at hl
    obtain ⟨⟨_, org⟩, hp, rfl⟩ := hl
    cases hF.stands _ (List.mem_of_getElem? hp)
    obtain ⟨j, hj, _⟩ := filterMap_set_of_some hp (rfl : Prod.snd (Pc.read a, some a) = some a)
      (rfl : Prod.snd (Pc.read a', some a') = some a')
    have hi : Reader.Inv s.reader (ps.filterMap Prod.snd) := Reader.inv_of_reachable hr
    have hlt := Reader.work_exec hi hj hstep
    have hset' := sum_map_set Handler.work hj a'
    unfold Reader.work at hlt
    unfold work readWork
    rw [Shared.afterRead_reader]
    simp only [Pc.work] at hset
    omega
  | login => exact hother rfl rfl (by show 1 < 2; omega)
  | heartResponse => exact hother rfl rfl (by show 0 < 2; omega)
  | callOut => exact hother rfl rfl (by show 0 < 2; omega)
  | ignored => exact hother rfl rfl (by show 0 < 2; omega)
  | loginSent => exact hother rfl rfl Nat.one_pos
  | sendFailed => exact hother rfl rfl Nat.one_pos
  | sendDone => exact hother rfl rfl Nat.one_pos
  | timerFailed => exact hother rfl rfl (by show 0 < 3; omega)
  | timedOut => exact hother rfl rfl (by show 1 < 3; omega)
  | quiet => exact hother rfl rfl (by show 2 < 3; omega)
  | busy => exact hother rfl rfl (by show 1 < 3; omega)
  | heart => exact hother rfl rfl (by show 1 < 2; omega)
  | check =>
    refine hother ?_ ?_ Nat.one_pos
    · unfold Shared.doTimeoutCheck
      split <;> rfl
    · unfold Shared.doTimeoutCheck
      split <;> rfl

/-- So does a piece of a read or its completion. -/
theorem work_read_lt {data : Buffer} {ps : List (Pc × Option Handler)} {n : Nat}
    {e : Reader.Event} {reader : Reader.Session} {new : List Handler}
    (hr : Reader.Reachable P o data ⟨s.reader, ps.filterMap Prod.snd⟩)
    (he : Reader.env s.reader n e = some (reader, new))
    (hint : Reader.internal (.env e) = true) :
    work { s with reader } (ps.map Prod.fst ++ new.map .read) < work s (ps.map Prod.fst) := by
  have hi : Reader.Inv s.reader (ps.filterMap Prod.snd) := Reader.inv_of_reachable hr
  have hlt := Reader.work_env hi he hint
  have hnew : ((new.map Pc.read).map Pc.work).sum ≤ 3 * (new.map Handler.work).sum + 2 := by
    cases Reader.env_step he with
    | complete => rfl
    | fail => rfl
    | _ => exact Nat.zero_le _
  unfold Reader.work at hlt
  unfold work readWork
  rw [List.map_append, List.sum_append] at hlt ⊢
  show 3 * (8 * reader.unread.length + reader.reading.elim 0 Reader.AsyncRead.work) + _ < _
  omega

/-- A move of the server itself leaves less to do. -/
theorem work_step {data : Buffer} {timeoutElapsed now : Nat} {s s' : Conf Shared Pc}
    {m : Move Event Unit} (h : (session P o).Reach (fun _ _ => True) (start data timeoutElapsed now) s)
    (hint : internal m = true) (hst : (session P o).step s m = some s') :
    work s'.shared s'.threads < work s.shared s.threads := by
  obtain ⟨t, hreach, ps, hts, rfl, hF⟩ := simulates h
  rcases Program.step_cases hst with
    ⟨e, sh, new, rfl, he, rfl⟩ | ⟨i, r, l, sh, l', rfl, hl, he, rfl⟩
  · rw [hts]
    cases env_step he with
    | @read e reader new h => exact work_read_lt hreach h hint
    | _ => cases hint
  · rw [hts] at hl ⊢
    exact (exec_step he).work_lt hreach hF hl

/-- The server cannot go on for ever by itself. -/
theorem length_le_work {data : Buffer} {timeoutElapsed now : Nat} {ms : List (Move Event Unit)}
    {s s' : Conf Shared Pc}
    (h : (session P o).Reach (fun _ _ => True) (start data timeoutElapsed now) s)
    (hint : ∀ m ∈ ms, internal m = true)
    (hrun : (session P o).run (fun _ _ => true) s ms = some s') :
    ms.length ≤ work s.shared s.threads := by
  exact Program.length_le_of_run internal (fun s => work s.shared s.threads)
    (fun _ m _ hreach hm hst => ⟨hreach.tail ⟨m, trivial, hst⟩, work_step hreach hm hst⟩)
    h hint hrun

/-! ## Calls handed over -/

/-- What a session gives to the card. -/
structure HandsOver (P : Protobuf) (o : ByteOrder) (s : Conf Shared Pc) : Prop where
  /-- A call is handed over for a frame that asks for it, and for none twice. -/
  asked : (s.shared.callouts.map Callout.call).Subperm (callRequests P s.shared.reader.stream)
  /-- The server comes to rest. -/
  rests : ∃ n, ∀ ms s', (∀ m ∈ ms, internal m = true) →
    (session P o).run (fun _ _ => true) s ms = some s' → ms.length ≤ n
  /-- At rest, each frame that asks for a call has had it handed over, unless all `T` io
  threads wait for a buffer, `n` of them elsewhere. -/
  all : ∀ T n, s.shared.reader.stoppedElsewhere = false → waiting T s + n < T →
    Quiet P o T n s →
    (s.shared.callouts.map Callout.call).Perm (callRequests P s.shared.reader.stream)

/-- At rest, what the reader's handlers found is what the bodies ask for. -/
theorem Quiet.wants_eq {T n : Nat} {data : Buffer} {ps : List (Pc × Option Handler)}
    (h : Reader.Reachable P o data ⟨s.reader, ps.filterMap Prod.snd⟩) (hF : Follows s ps)
    (hq : Quiet P o T n ⟨s, ps.map Prod.fst⟩) (hleft : waiting T ⟨s, ps.map Prod.fst⟩ + n < T) :
    (ps.filterMap Prod.snd).filterMap wants =
      (handedOut (ps.filterMap Prod.snd)).filterMap fun body => callOf (dealRequest P body) := by
  rw [filterMap_handedOut]
  refine List.filterMap_congr ?_
  intro a ha
  obtain ⟨⟨l, org⟩, hp, hpa⟩ := List.mem_filterMap.mp ha
  have hst := hF.stands _ hp
  rw [show org = some a from hpa] at hst
  have hdealt : ∀ body request, a = .dealt body request → wants a =
      a.given.bind fun body => callOf (dealRequest P body) := by
    rintro body request rfl
    rw [dealt_of_reachable h ha]
    rfl
  rcases hq.exec hleft (List.mem_map_of_mem hp) with hw | ⟨i, he⟩
  · cases l with
    | read b =>
      cases hst
      cases a with
      | dealt body request => exact hdealt body request rfl
      | _ => cases hw
    | heart => cases hst
    | _ => cases hw
  · cases l with
    | read b =>
      cases hst
      rw [exec_read_none he]
      rfl
    | loginSent => cases he
    | done =>
      rcases hst with hb | ⟨body, request, hb⟩
      · cases hb
      · exact hdealt body request (Option.some.inj hb)
    | _ => cases hst

/-- Of every call, what is handed over and what a handler still wants is what was found. -/
theorem Follows.count_callouts {s : Shared} {ps : List (Pc × Option Handler)} (h : Follows s ps)
    (c : Call) : (s.callouts.map Callout.call).count c +
      tokens (fun p : Pc × Option Handler => p.1.wants) c ps =
      tokens wants c (ps.filterMap Prod.snd) := by
  rw [← tokens_some_eq_count, tokens_map, tokens_filterMap]
  exact h.conserved c

/-- The calls that are handed over are call requests of the stream, none twice. -/
theorem callouts_subperm {data : Buffer} {timeoutElapsed now : Nat} {s : Conf Shared Pc}
    (h : (session P o).Reach (fun _ _ => True) (start data timeoutElapsed now) s) :
    (s.shared.callouts.map Callout.call).Subperm (callRequests P s.shared.reader.stream) := by
  obtain ⟨t, hreach, ps, _, rfl, hF⟩ := simulates h
  refine List.subperm_ext_iff.mpr fun c _ => ?_
  have heq := hF.count_callouts c
  calc (s.shared.callouts.map Callout.call).count c
      ≤ tokens wants c (ps.filterMap Prod.snd) := by omega
    _ ≤ (callRequests P s.shared.reader.stream).count c := tokens_wants_le hreach c

/-- **A call is handed over for each call request of the stream, once.** -/
theorem handsOver {data : Buffer} {timeoutElapsed now : Nat} {s : Conf Shared Pc}
    (h : (session P o).Reach (fun _ _ => True) (start data timeoutElapsed now) s) :
    HandsOver P o s := by
  have hasked := callouts_subperm h
  obtain ⟨t, hreach, ps, hts, rfl, hF⟩ := simulates h
  obtain ⟨sh, ts⟩ := s
  change ts = ps.map Prod.fst at hts
  subst hts
  refine ⟨hasked, ⟨work sh (ps.map Prod.fst), fun ms s' => length_le_work h⟩, ?_⟩
  intro T n helse hleft hq
  refine List.perm_iff_count.mpr fun c => ?_
  have hnone : tokens (fun p : Pc × Option Handler => p.1.wants) c ps = 0 := by
    refine tokens_eq_zero_iff.mpr fun p hp hc => ?_
    obtain ⟨l, org⟩ := p
    rcases hq.exec hleft (List.mem_map_of_mem hp) with hw | ⟨i, he⟩
    · cases (Pc.wants_of_writes hw).symm.trans hc
    · cases l with
      | read a =>
        cases exec_read_none he
        cases hc
      | _ => cases hc
  have heq := hF.count_callouts c
  rw [hnone, Nat.add_zero, ← count_filterMap_eq_tokens, hq.wants_eq hreach hF hleft,
    Reader.handedOut_of_quiet hreach helse (hq.reader hF hleft)] at heq
  exact heq

/-- One call request has come in and is handed over. -/
theorem handsOver_oneRequest :
    HandsOver knownFields .little
      ((session knownFields .little).after (fun _ _ => true) (start zeroed 0 0)
        callWithoutLogin) :=
  handsOver (Interleave.Program.Reach.mono (fun _ _ _ => trivial)
    (Program.reach_after (by decide +kernel)))

end CiaServer.Net.Session
