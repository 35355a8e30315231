import CiaServer.Net.CallResponse
import CiaServer.Net.Session

/-!
# Are there calls before the login?

`do_deal_login_request` sets `m_is_login`, and nobody ever asks for it: a call
request is handed to `cti_callout` from whoever sends one
(`callsAfterLogin_fails`).

`callsAfterLogin_iff`: no call is made before the login if every call request
comes in after it; and if one comes in before, there is an order of the handlers
in which its call is made before the login.
-/

namespace CiaServer.Net.Session

open Wire Interleave
open Reader (Handler Request dealRequest)

/-- The body is a `CIA_CALL_REQUEST`. -/
def AsksForCall (P : Protobuf) (body : Bytes) : Prop :=
  ∃ transId authCode pn, dealRequest P body = .callOut transId authCode pn

/-- A call request is read only from a peer that has logged in. -/
def LoggedInFirst (P : Protobuf) (s : Conf Shared Pc) : Move Event Unit → Prop
  | .env _ => True
  | .run i _ => s.threads[i]? = some (.read (.onBody false)) →
    AsksForCall P s.shared.reader.readMsg.body → s.shared.isLogin = true

/-- The handler has a call request that it has not handed on. -/
def Pc.Asks (P : Protobuf) : Pc → Prop
  | .read (.readHeader chMsg) => AsksForCall P chMsg.body
  | .read (.deal chMsg) => AsksForCall P chMsg.body
  | .read (.dealt _ (.callOut _ _ _)) => True
  | _ => False

/-- Calls were made after the login, and those to come will be. -/
structure CallInv (P : Protobuf) (s : Shared) (ts : List Pc) : Prop where
  made : ∀ k ∈ s.callouts, k.isLogin = true
  toCome : ∀ l ∈ ts, l.Asks P → s.isLogin = true

variable {P : Protobuf} {o : ByteOrder} {s s' : Shared} {i : Nat} {l l' : Pc}

/-- A step that makes no call: the login stays, and the handler has no call
request that it did not have. -/
theorem CallInv.set {ts : List Pc} (hi : CallInv P s ts) (hl : ts[i]? = some l)
    (hc : s'.callouts = s.callouts) (hlogin : s.isLogin = true → s'.isLogin = true)
    (hasks : l'.Asks P → s'.isLogin = true) : CallInv P s' (ts.set i l') := by
  refine ⟨?_, ?_⟩
  · rw [hc]
    exact hi.made
  · intro m hm hma
    rcases mem_set_cases hl hm with rfl | ⟨j, _, hj⟩
    · exact hasks hma
    · exact hlogin (hi.toCome m (List.mem_of_getElem? hj) hma)

@[simp] theorem Shared.afterRead_isLogin (s : Shared) (h : Handler) (reader : Reader.Session) :
    (s.afterRead h reader).isLogin = s.isLogin := by
  unfold Shared.afterRead
  split <;> rfl

@[simp] theorem Shared.afterRead_callouts (s : Shared) (h : Handler) (reader : Reader.Session) :
    (s.afterRead h reader).callouts = s.callouts := by
  unfold Shared.afterRead
  split <;> rfl

/-- What a handler of a read has to ask for, it had before, or it has just read. -/
theorem asks_of_read {h h' : Handler} {r : Unit} {reader : Reader.Session}
    (hstep : Reader.exec P o s.reader i h r = some (reader, h')) (hasks : (Pc.read h').Asks P) :
    (Pc.read h).Asks P ∨ h = .onBody false ∧ AsksForCall P s.reader.readMsg.body := by
  cases h with
  | onHeader ec =>
    cases ec with
    | true =>
      cases hstep
      exact hasks.elim
    | false =>
      simp only [Reader.exec, Option.some.injEq, Prod.mk.injEq] at hstep
      obtain ⟨_, rfl⟩ := hstep
      split at hasks <;> exact hasks.elim
  | readBody =>
    cases hstep
    exact hasks.elim
  | onBody ec =>
    cases ec with
    | true =>
      cases hstep
      exact hasks.elim
    | false =>
      cases hstep
      exact Or.inr ⟨rfl, hasks⟩
  | readHeader chMsg =>
    cases hstep
    exact Or.inl hasks
  | deal chMsg =>
    cases hstep
    refine Or.inl ?_
    cases hd : dealRequest P chMsg.body with
    | callOut transId authCode pn => exact ⟨transId, authCode, pn, hd⟩
    | ignored =>
      rw [hd] at hasks
      exact hasks.elim
    | login =>
      rw [hd] at hasks
      exact hasks.elim
    | heart =>
      rw [hd] at hasks
      exact hasks.elim
  | dealt body request => cases hstep
  | stop =>
    cases hstep
    exact hasks.elim
  | done => cases hstep

theorem Step.callInv {ts : List Pc} (h : Step P o s i l s' l') (hi : CallInv P s ts)
    (hl : ts[i]? = some l)
    (hok : l = .read (.onBody false) → AsksForCall P s.reader.readMsg.body → s.isLogin = true) :
    CallInv P s' (ts.set i l') := by
  cases h with
  | read hstep =>
    refine hi.set hl (by simp) (by simp) ?_
    intro hasks
    rw [Shared.afterRead_isLogin]
    rcases asks_of_read hstep hasks with hasks | ⟨rfl, hasks⟩
    · exact hi.toCome _ (List.mem_of_getElem? hl) hasks
    · exact hok rfl hasks
  | callOut =>
    -- it was read after the login
    have hlogin : s.isLogin = true := hi.toCome _ (List.mem_of_getElem? hl) trivial
    refine ⟨?_, fun m hm hma => hlogin⟩
    intro k hk
    rcases List.mem_cons.mp hk with rfl | hk
    · exact hlogin
    · exact hi.made k hk
  | loginSent => exact hi.set hl rfl (fun _ => rfl) (fun h => h.elim)
  | check =>
    have hsame : s.doTimeoutCheck.callouts = s.callouts ∧
        s.doTimeoutCheck.isLogin = s.isLogin := by
      unfold Shared.doTimeoutCheck
      split <;> exact ⟨rfl, rfl⟩
    exact hi.set hl hsame.1 (fun h => hsame.2.trans h) (fun h => h.elim)
  | _ => exact hi.set hl rfl id (fun h => h.elim)

/-- A handler that starts has nothing to ask for, and nothing is called. -/
theorem EnvStep.keepsCalls {new : List Pc} {n : Nat} {e : Event} (h : EnvStep s n e s' new) :
    s'.callouts = s.callouts ∧ s'.isLogin = s.isLogin ∧ ∀ l ∈ new, ¬l.Asks P := by
  cases h with
  | @read e reader started hread =>
    refine ⟨rfl, rfl, ?_⟩
    intro l hl
    obtain ⟨a, ha, rfl⟩ := List.mem_map.mp hl
    -- a read starts the handler of its completion
    have hstarts : ∀ {r : Reader.AsyncRead} {ec : Bool}, a ∈ [r.handler ec] →
        ¬(Pc.read a).Asks P := by
      intro r ec ha
      rw [List.mem_singleton.mp ha]
      unfold Reader.AsyncRead.handler
      split <;> exact id
    cases Reader.env_step hread with
    | complete => exact hstarts ha
    | fail => exact hstarts ha
    | _ => cases ha
  | sent => exact ⟨rfl, rfl, List.forall_mem_singleton.mpr id⟩
  | expired => exact ⟨rfl, rfl, List.forall_mem_singleton.mpr id⟩
  | _ => exact ⟨rfl, rfl, nofun⟩

theorem callInv_env {ts new : List Pc} {n : Nat} {e : Event} (h : env s n e = some (s', new))
    (hi : CallInv P s ts) : CallInv P s' (ts ++ new) := by
  obtain ⟨hc, hlogin, hnew⟩ := (env_step h).keepsCalls (P := P)
  refine ⟨?_, ?_⟩
  · rw [hc]
    exact hi.made
  · intro l hl hasks
    rw [hlogin]
    rcases List.mem_append.mp hl with hl | hl
    · exact hi.toCome l hl hasks
    · exact absurd hasks (hnew l hl)

/-- Every configuration of a run whose call requests come in after the login. -/
theorem callInv {s₀ s : Conf Shared Pc} (h₀ : CallInv P s₀.shared s₀.threads)
    (h : (session P o).Reach (LoggedInFirst P) s₀ s) : CallInv P s.shared s.threads :=
  Program.Reach.rule (I := CallInv P) h₀
    (fun _ ts _ _ _ _ hi _ he => callInv_env (n := ts.length) he hi)
    (fun _ _ _ _ _ _ _ _ hi hok hl he => (exec_step he).callInv hi hl fun heq hasks =>
      hok (by rw [← heq]; exact hl) hasks) h

theorem callInv_start (P : Protobuf) (data : Buffer) (timeoutElapsed now : Nat) :
    CallInv P (start data timeoutElapsed now).shared (start data timeoutElapsed now).threads := by
  refine ⟨?_, nofun⟩
  unfold start Shared.doTimeoutCheck
  dsimp only
  split
  · split <;> exact nofun
  · exact nofun

/-! ## A call request before the login -/

/-- A handler with a call request of a peer that is not logged in, if it is the
next to run, makes the call. -/
theorem call_next {s : Conf Shared Pc} {i : Nat} {chMsg : ChatMessage}
    (hl : s.threads[i]? = some (.read (.readHeader chMsg))) (hasks : AsksForCall P chMsg.body)
    (hlogin : s.shared.isLogin = false) :
    ∃ s', (session P o).Reach (fun _ _ => True) s s' ∧
      ∃ k ∈ s'.shared.callouts, k.isLogin = false := by
  obtain ⟨transId, authCode, pn, hd⟩ := hasks
  let rd : Reader.Session := { s.shared.reader with reading := some Reader.asyncReadHeader }
  let sh₁ : Shared := { s.shared with reader := rd }
  let k : Callout := { transId, authCode, pn, isLogin := sh₁.isLogin }
  have hdeal : (session P o).exec sh₁ i (.read (.deal chMsg)) ()
      = some (sh₁, .read (.dealt chMsg.body (.callOut transId authCode pn))) := by
    show some (sh₁, Pc.read (.dealt chMsg.body (dealRequest P chMsg.body))) = _
    rw [hd]
  have hsolo : (session P o).Solo (fun _ => False) (fun _ => ()) s.threads.length i
      (s.shared, .read (.readHeader chMsg))
      ({ sh₁ with callouts := k :: sh₁.callouts }, .done) :=
    Program.Solo.head rfl (Program.Solo.head hdeal (Program.Solo.head rfl .refl))
  exact ⟨_, (Program.Solo.reach hl hsolo).mono fun _ _ _ => trivial, k, List.mem_cons_self ..,
    hlogin⟩

/-- **Calls come after the login** in every run in which the call requests do;
and a call request that comes before it can be called before it. -/
theorem callsAfterLogin_iff (P : Protobuf) (o : ByteOrder) (data : Buffer)
    (timeoutElapsed now : Nat) :
    (∀ s, (session P o).Reach (LoggedInFirst P) (start data timeoutElapsed now) s →
      ∀ k ∈ s.shared.callouts, k.isLogin = true) ∧
    ∀ s m s', (session P o).Reach (fun _ _ => True) (start data timeoutElapsed now) s →
      ¬LoggedInFirst P s m → (session P o).step s m = some s' →
      ∃ s'', (session P o).Reach (fun _ _ => True) s' s'' ∧
        ∃ k ∈ s''.shared.callouts, k.isLogin = false := by
  refine ⟨fun s h => (callInv (callInv_start P data timeoutElapsed now) h).made, ?_⟩
  intro s m s' _ hm hstep
  rcases Program.step_cases hstep with ⟨_, _, _, rfl, _⟩ | ⟨i, r, l, sh, l', rfl, hl, hex, rfl⟩
  · exact absurd trivial hm
  · simp only [LoggedInFirst, not_forall] at hm
    obtain ⟨hbody, hasks, hlogin⟩ := hm
    cases hl.symm.trans hbody
    cases hex
    refine call_next (i := i) ?_ hasks (Bool.eq_false_iff.mpr hlogin)
    exact List.getElem?_set_self (List.getElem?_eq_some_iff.mp hl).1

/-- A peer that connects and sends one call request. -/
def callWithoutLogin : List (Move Event Unit) :=
  [.env (.read (.arrive (Wire.frame headerLength (callRequest [1]).serialize))),
   .env (.read (.deliver 4)), .env (.read .complete), .run 0 (), .run 0 (),
   .env (.read (.deliver 11)), .env (.read .complete), .run 1 (), .run 1 (), .run 1 (), .run 1 ()]

/-- **The code makes calls for peers that have not logged in.** -/
theorem callsAfterLogin_fails : ¬∀ (P : Protobuf) (o : ByteOrder) (data : Buffer)
    (timeoutElapsed now : Nat) (s : Conf Shared Pc),
    (session P o).Reach (fun _ _ => True) (start data timeoutElapsed now) s →
    ∀ k ∈ s.shared.callouts, k.isLogin = true := by
  intro h
  have hreach : (session knownFields .little).Reach (fun _ _ => True) (start zeroed 0 0)
      ((session knownFields .little).after (fun _ _ => true) (start zeroed 0 0)
        callWithoutLogin) :=
    (Program.reach_after (by decide +kernel)).mono fun _ _ _ => trivial
  have hlogin := h knownFields .little zeroed 0 0 _ hreach
    { transId := [1], authCode := [], pn := [], isLogin := false } (by decide +kernel)
  cases hlogin

end CiaServer.Net.Session
