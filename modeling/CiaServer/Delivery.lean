import CiaServer.Cti.History
import CiaServer.Net.BufferPool
import CiaServer.Net.CallResponse
import CiaServer.Net.Sending
import CiaServer.TestAll

/-!
# From the bytes of a client to the bytes it gets back

`testAll` with its sockets: what the card answers goes through `do_write` into a
buffer of the client, and from there onto the wire, while the io threads write
their own messages and run the completion handlers.

An answer is a thread that is in `do_write` with it, a send that waits its turn, or on
the wire. `delivers`: as long as the sends to a client transmit whole buffers, what it
reads off its wire as answers to calls are answers to call requests that it has put on
the wire itself, with their `transid`s, none twice; and while the connection is open
each answer of the card is read, or is still under way, once.

Mirroring notes:
- The card's thread goes on while the `do_write` it has called is under way, so more
  can happen here than in the source, where it waits.
- A response that `chat_message(msg)` would write outside `m_data` is the end of the
  run (`callResponse_encodes_iff` says which).
- Besides the card, `do_write` is called with login responses and heartbeats only.
  When a session calls it is left open, and so is whether it is open when its sender
  is: here each may do what the other would not let it do in the source.
- `clients` of the sessions and of the senders are numbered alike: both are the order
  of the connections.
-/

namespace CiaServer

open Wire Interleave
open Cti (Response Obs)
open Net
open Net.Writer (Outgoing writer)
open Net.Session (Call callRequests)

/-! ## Answers in messages -/

/-- The answer to a call that a body is: its `transId` and its status. -/
def answerIn (P : Protobuf) (body : Bytes) : Option (Bytes × Bytes) :=
  (P.parse body).bind fun msg =>
    if msg.value .type = ciaCallResponse then some (msg.value .transId, msg.value .status) else none

/-- The answers that a peer reads off what was sent to it. -/
def answersRead (P : Protobuf) (wire : Bytes) : List (Bytes × Bytes) :=
  (bodies headerLength maxBodyLength wire).filterMap (answerIn P)

/-- The answer that a message for `do_write` is. -/
def answerOf (P : Protobuf) (chMsg : Outgoing) : Option (Bytes × Bytes) := answerIn P chMsg.1.body

/-- The answer with which a thread is in `do_write` of client `k`. -/
def carries (P : Protobuf) (k : Nat) : Net.Writer.Pc → Option (Bytes × Bytes)
  | .take c chMsg => if c = k then answerOf P chMsg else none
  | .fill c chMsg _ => if c = k then answerOf P chMsg else none
  | .send c chMsg _ => if c = k then answerOf P chMsg else none
  | _ => none

/-- What was started for client `k`. -/
def startedFor (k : Nat) (cs : List Net.Writer.Client) : List Outgoing :=
  cs[k]?.elim [] (·.started)

/-- The answer the card gives to client `k`. -/
def answerTo (k : Nat) : Obs → Option (Bytes × Bytes)
  | .response _ r => if r.client = k then some (r.transId, r.status) else none
  | _ => none

/-! ## The server with its sockets -/

/-- The clients and the card, and the senders of the clients. -/
structure Wired where
  server : Server
  writer : Conf (List Net.Writer.Client) Net.Writer.Pc

inductive WiredEvent where
  /-- Something in the session of client `k`. -/
  | session (k : Nat) (m : Move Net.Session.Event Unit)
  /-- A move of the card, with the memory for a `chat_message`. -/
  | card (m : Move Cti.Action Int) (data : Buffer)
  /-- A client connects, with the memory for its buffers. -/
  | accept (a : Accepted) (datas : List Buffer)
  | sender (m : Move Net.Writer.Event Net.Writer.Choice)

/-- The response that a step of the card writes. -/
def responded (c c' : Conf Cti.Shared Cti.Pc) : Option Response :=
  match c'.shared.log with
  | .response _ r :: rest => if rest.length = c.shared.log.length then some r else none
  | _ => none

/-- A thread of the card calls `do_write(chat_message(msg))`. -/
def doWrite (P : Protobuf) (o : ByteOrder) (T : Nat)
    (w : Conf (List Net.Writer.Client) Net.Writer.Pc) (data : Buffer) (r : Response) :
    Option (Conf (List Net.Writer.Client) Net.Writer.Pc) :=
  (Outgoing.ofMessage P o data (callResponse r.transId r.status)).bind fun chMsg =>
    (writer T).run (fun _ _ => true) w
      [.env .spawn, .run w.threads.length (.write r.client chMsg)]

/-- What the senders do without the card and without a new client. -/
def free (P : Protobuf) : Move Net.Writer.Event Net.Writer.Choice → Bool
  | .env (.accept _) => false
  | .env .spawn => false
  | .run _ (.write _ chMsg) => (answerOf P chMsg).isNone
  | _ => true

/-- A heartbeat is no answer. -/
example : (Outgoing.ofMessage Net.knownFields .little Net.zeroed
    (CiaMessage.empty.set .type ciaHeartRequest)).map (answerOf Net.knownFields) = some none := by
  decide +kernel

/-- One step of the server, as long as the process lives. -/
def wiredStep (P : Protobuf) (o : ByteOrder) (cfg : Cti.Config) (T : Nat) (s : Wired) :
    WiredEvent → Option Wired
  | .session k m =>
    ((testAll P o cfg).step s.server (.part k m)).map fun server => { s with server }
  | .card m data =>
    match (testAll P o cfg).step s.server (.hub m) with
    | none => none
    | some server =>
      match responded s.server.hub server.hub with
      | none => some { s with server }
      | some r => (doWrite P o T s.writer data r).map fun writer => { server, writer }
  | .accept a datas =>
    match (testAll P o cfg).step s.server (.join a) with
    | none => none
    | some server =>
      ((writer T).step s.writer (.env (.accept datas))).map fun writer => { server, writer }
  | .sender m =>
    if !s.server.hub.shared.crashed && free P m then
      ((writer T).step s.writer m).map fun writer => { s with writer }
    else none

/-- The card and the io threads run, and nobody has connected. -/
def wiredStart (cfg : Cti.Config) (echo : Nat → Bool) (T : Nat) : Wired where
  server := { parts := [], hub := Cti.initial cfg echo }
  writer := Net.Writer.start T

/-- What the server can come to. -/
def WiredReachable (P : Protobuf) (o : ByteOrder) (cfg : Cti.Config) (T : Nat) (s : Wired) : Prop :=
  ∃ echo es, runs (wiredStep P o cfg T) (wiredStart cfg echo T) es = some s

/-! ## The responses of the card -/

variable {P : Protobuf} {o : ByteOrder} {cfg : Cti.Config} {T k : Nat}

/-- The environment of the card writes no response. -/
theorem answers_env {c c' : Conf Cti.Shared Cti.Pc} {a : Cti.Action}
    (h : (Cti.voiceCard cfg).step c (.env a) = some c') (k : Nat) (key : Bytes × Bytes) :
    tokens (answerTo k) key c'.shared.log = tokens (answerTo k) key c.shared.log := by
  rcases Program.step_cases h with ⟨a', sh, new, _, he, rfl⟩ | ⟨_, _, _, _, _, hm, _⟩
  · rcases Cti.env_log (Cti.env_step he).2 with ⟨hl, _⟩ | ⟨d, dw, hl, _⟩ <;> dsimp only <;> rw [hl]
    rw [tokens_cons, tok_of_none rfl, Nat.zero_add]
  · cases hm

/-- The card writes one response, or none. -/
theorem responded_cases {c c' : Conf Cti.Shared Cti.Pc} {m : Move Cti.Action Int}
    (h : (Cti.voiceCard cfg).step c m = some c') :
    (responded c c' = none ∧ ∀ k key,
      tokens (answerTo k) key c'.shared.log = tokens (answerTo k) key c.shared.log) ∨
    ∃ req r, responded c c' = some r ∧ c'.shared.log = .response req r :: c.shared.log := by
  have hlog : c'.shared.log = c.shared.log ∨ ∃ ob, c'.shared.log = ob :: c.shared.log := by
    rcases Program.step_cases h with ⟨a, sh, new, rfl, he, rfl⟩ | ⟨i, r, l, sh, l', rfl, _, he, rfl⟩
    · rcases Cti.env_log (Cti.env_step he).2 with ⟨hl, _⟩ | ⟨_, _, hl, _⟩
      · exact Or.inl hl
      · exact Or.inr ⟨_, hl⟩
    · rcases Cti.thread_log (Cti.exec_step he).2 with hl | ⟨ob, hl, _⟩
      · exact Or.inl hl
      · exact Or.inr ⟨ob, hl⟩
  unfold responded
  rcases hlog with hl | ⟨ob, hl⟩
  · refine Or.inl ⟨?_, fun k key => by rw [hl]⟩
    rw [hl]
    split
    · next r rest hr =>
      rw [if_neg]
      rw [hr, List.length_cons]
      omega
    · rfl
  · rw [hl]
    cases ob with
    | response req r => exact Or.inr ⟨req, r, if_pos rfl, rfl⟩
    | _ => exact Or.inl ⟨rfl, fun k key => by rw [tokens_cons, tok_of_none rfl, Nat.zero_add]⟩

/-! ## The senders -/

/-- What happens to a client without a thread starts nothing. -/
theorem started_of_event {cl cl' : Net.Writer.Client} (h : Net.Writer.ClientEvent cl cl') :
    cl'.started = cl.started := by
  cases h <;> rfl

/-- A thread in `do_write` starts the send of what it came with. -/
theorem started_of_step {c : Nat} {cl cl' : Net.Writer.Client} {l l' : Net.Writer.Pc}
    (h : Net.Writer.ClientStep c cl l cl' l') (key : Bytes × Bytes) :
    tokens (answerOf P) key cl'.started + tok (carries P c) key l'
      = tokens (answerOf P) key cl.started + tok (carries P c) key l := by
  cases h with
  | @send chMsg b m hm =>
    have hcarries : tok (carries P c) key (.send c chMsg b) = tok (answerOf P) key chMsg := by
      simp only [tok, carries, if_true]
    have hready : tok (carries P c) key .ready = 0 := tok_of_none rfl
    rw [tokens_append, tokens_cons, tokens_nil, hcarries, hready]
    omega
  | put => rw [tok_of_none (by split <;> rfl), tok_of_none rfl]; rfl
  | _ => rfl

/-- It has nothing to do with another client. -/
theorem carries_of_step {c : Nat} {cl cl' : Net.Writer.Client} {l l' : Net.Writer.Pc}
    (h : Net.Writer.ClientStep c cl l cl' l') (hk : c ≠ k) :
    carries P k l = none ∧ carries P k l' = none := by
  cases h with
  | put =>
    refine ⟨rfl, ?_⟩
    split <;> rfl
  | _ => exact ⟨by first | rfl | exact if_neg hk, by first | rfl | exact if_neg hk⟩

theorem startedFor_set {cs : List Net.Writer.Client} {c : Nat} {cl cl' : Net.Writer.Client}
    (hcl : cs[c]? = some cl) :
    startedFor k (cs.set c cl') = if c = k then cl'.started else startedFor k cs := by
  unfold startedFor
  by_cases hk : c = k
  · subst hk
    rw [List.getElem?_set_self (List.getElem?_eq_some_iff.mp hcl).1, if_pos rfl]
    rfl
  · rw [List.getElem?_set_ne hk, if_neg hk]

/-- Nothing was started for a new client. -/
theorem startedFor_new (cs : List Net.Writer.Client) (datas : List Buffer) :
    startedFor k (cs ++ [Net.Writer.Client.new datas]) = startedFor k cs := by
  unfold startedFor
  by_cases hk : k < cs.length
  · rw [List.getElem?_append_left hk]
  · rw [List.getElem?_append_right (by omega), List.getElem?_singleton,
      List.getElem?_eq_none (by omega)]
    split <;> rfl

/-- What is under way to client `k` and what was started for it, of one answer. -/
def underway (P : Protobuf) (k : Nat) (key : Bytes × Bytes)
    (w : Conf (List Net.Writer.Client) Net.Writer.Pc) : Nat :=
  tokens (answerOf P) key (startedFor k w.shared) + tokens (carries P k) key w.threads

/-- Without the card no answer comes onto its way, and none is lost. -/
theorem underway_step {w w' : Conf (List Net.Writer.Client) Net.Writer.Pc}
    {m : Move Net.Writer.Event Net.Writer.Choice} (h : (writer T).step w m = some w')
    (hm : ∀ i c chMsg, m = .run i (.write c chMsg) → answerOf P chMsg = none)
    (key : Bytes × Bytes) : underway P k key w' = underway P k key w := by
  rcases Program.step_cases h with ⟨e, cs, new, rfl, he, rfl⟩ | ⟨i, r, l, cs, l', rfl, hl, he, rfl⟩
  · rw [underway, underway]
    dsimp only
    rw [tokens_append]
    rcases Net.Writer.env_cases (n := w.threads.length) he with ⟨datas, _, rfl, rfl⟩ | ⟨rfl, rfl⟩ |
      ⟨c, cl, cl', hcl, rfl, rfl, hev⟩
    · rw [startedFor_new]
      rfl
    · rfl
    · rw [startedFor_set hcl, started_of_event hev]
      split
      · next hk =>
        subst hk
        rw [startedFor, hcl]
        rfl
      · rfl
  · have hset := tokens_set (carries P k) key hl l'
    rw [underway, underway]
    dsimp only
    rcases Net.Writer.exec_cases he with ⟨c, chMsg, rfl, rfl, rfl, _, rfl⟩ |
      ⟨c, cl, cl', hcl, rfl, hst⟩
    · have hnone : carries P k (.take c chMsg) = none := by
        rw [carries, hm i c chMsg rfl]
        exact ite_self none
      have hready : tok (carries P k) key .ready = 0 := tok_of_none rfl
      rw [tok_of_none hnone] at hset
      omega
    · rw [startedFor_set hcl]
      split
      · next hk =>
        subst hk
        have hcount := started_of_step (P := P) hst key
        rw [startedFor, hcl]
        show _ = tokens (answerOf P) key cl.started + _
        omega
      · next hk =>
        obtain ⟨h₁, h₂⟩ := carries_of_step (P := P) hst hk
        rw [tok_of_none h₁, tok_of_none h₂] at hset
        omega

/-- A response of the card comes onto its way. -/
theorem doWrite_cases {w w' : Conf (List Net.Writer.Client) Net.Writer.Pc} {data : Buffer}
    {r : Response} (h : doWrite P o T w data r = some w') :
    ∃ chMsg, Outgoing.ofMessage P o data (callResponse r.transId r.status) = some chMsg ∧
      (writer T).run (fun _ _ => true) w
        [.env .spawn, .run w.threads.length (.write r.client chMsg)] = some w' ∧
      w' = ⟨w.shared, w.threads ++ [.take r.client chMsg]⟩ := by
  obtain ⟨chMsg, hm, hrun⟩ := Option.bind_eq_some_iff.mp h
  refine ⟨chMsg, hm, hrun, ?_⟩
  rw [Program.run_true] at hrun
  obtain ⟨t, ht, hrun⟩ := runs_cons.mp hrun
  obtain ⟨t', ht', hrun⟩ := runs_cons.mp hrun
  cases hrun
  cases ht
  have hget : (w.threads ++ [Net.Writer.Pc.ready])[w.threads.length]? = some .ready := by
    rw [List.getElem?_append_right (Nat.le_refl _), Nat.sub_self]
    rfl
  rcases Program.step_cases ht' with ⟨e, _, _, he, _⟩ | ⟨i, r, l, cs, l', hi, hl, he, rfl⟩
  · cases he
  · cases hi
    cases hget.symm.trans hl
    have he' : (if r.client < w.shared.length then some (w.shared, Net.Writer.Pc.take r.client chMsg)
        else none) = some (cs, l') := he
    split at he' <;> cases he'
    congr 1
    dsimp only
    rw [List.set_append_right _ _ (Nat.le_refl _), Nat.sub_self]
    rfl

/-! ## The messages of the card -/

/-- The status of an answer. -/
def IsStatus (status : Bytes) : Prop :=
  status = ciaCallSuccess ∨ status = ciaCallFail ∨ status = ciaCallTimeout

/-- The status with which a thread is in `cti_hangUp`. -/
def hangUpStatus : Cti.Pc → Option Bytes
  | .hangUp _ _ status _ => some status
  | _ => none

theorem hangUpStatus_dealAutoDial {elapsed c : Nat} {dw : Cti.DialResult} {status : Bytes}
    (hs : hangUpStatus (Cti.dealAutoDial cfg elapsed c dw) = some status) : IsStatus status := by
  cases dw with
  | echotone =>
    simp only [Cti.dealAutoDial] at hs
    by_cases hstrategy : (cfg.useStrategy && decide (elapsed ≤ cfg.ctiWarningElapse)) = true
    · rw [if_pos hstrategy] at hs
      cases hs
    · rw [if_neg hstrategy] at hs
      cases hs
      exact Or.inl rfl
  | busytone | voice | voicef1 | voicef2 =>
    cases hs
    exact Or.inl rfl
  | noDialtone | noanswer | failure | invalidPhonum =>
    cases hs
    exact Or.inr (Or.inl rfl)
  | _ => cases hs

/-- A thread that comes into `cti_hangUp` comes with a status. -/
theorem hangUpStatus_step {sh sh' : Cti.Shared} {i : Nat} {pc pc' : Cti.Pc}
    (h : Cti.ThreadStep cfg sh i pc sh' pc') {status : Bytes}
    (hs : hangUpStatus pc' = some status) : IsStatus status ∨ hangUpStatus pc = some status := by
  cases h with
  | callout h => cases h <;> cases hs
  | @hangUp c _ _ _ _ _ h =>
    cases h with
    | noTrunk => cases c <;> cases hs
    | lockBusy | unlocked => cases c <;> cases hs
    | _ => exact Or.inr hs
  | autoDial h =>
    cases h with
    | entered => exact Or.inl (hangUpStatus_dealAutoDial hs)
    | _ => cases hs
  | timeoutCheck h =>
    cases h with
    | overdue | unlocked => cases hs; exact Or.inl (Or.inr (Or.inl rfl))
    | _ => cases hs
  | strategy h =>
    cases h with
    | unlocked => cases hs; exact Or.inl (Or.inl rfl)
    | _ => cases hs
  | ret => cases hs

/-- Every answer has a status, and so has every thread in `cti_hangUp`. -/
structure StatusInv (sh : Cti.Shared) (ts : List Cti.Pc) : Prop where
  log : ∀ req r, Obs.response req r ∈ sh.log → IsStatus r.status
  threads : ∀ pc ∈ ts, ∀ status, hangUpStatus pc = some status → IsStatus status

theorem reachable_statusInv {s : Conf Cti.Shared Cti.Pc} (h : Cti.Reachable cfg s) :
    StatusInv s.shared s.threads := by
  obtain ⟨echo, h⟩ := h
  refine Program.Reach.rule (I := StatusInv) ?_ ?_ ?_ h
  · constructor
    · intro req r hr
      cases hr
    · intro pc hpc status hs
      rcases List.mem_cons.mp hpc with rfl | hpc
      · cases hs
      · cases (List.mem_replicate.mp hpc).2
        cases hs
  · intro sh ts a sh' new _ hI _ henv
    have hstep := (Cti.env_step henv).2
    refine ⟨fun req r hr => ?_, fun pc hpc status hs => ?_⟩
    · rcases Cti.env_log hstep with ⟨hl, _⟩ | ⟨c, dw, hl, _⟩ <;> rw [hl] at hr
      · exact hI.log req r hr
      · exact hI.log req r ((List.mem_cons.mp hr).resolve_left nofun)
    · rcases List.mem_append.mp hpc with hpc | hpc
      · exact hI.threads pc hpc status hs
      · rcases Cti.env_new hstep hpc with ⟨x, rfl⟩ | ⟨c, dw, rfl⟩ | rfl <;> cases hs
  · intro sh ts i l r sh' l' _ hI _ hl hex
    have hstep := (Cti.exec_step hex).2
    have hmem := List.mem_of_getElem? hl
    refine ⟨fun req r hr => ?_, fun pc hpc status hs => ?_⟩
    · rcases Cti.thread_log hstep with hlog | ⟨ob, hlog, hnotes⟩ <;> rw [hlog] at hr
      · exact hI.log req r hr
      · rcases List.mem_cons.mp hr with rfl | hr
        · cases hnotes with
          | failed => exact Or.inr (Or.inl rfl)
          | timeout => exact Or.inr (Or.inr rfl)
          | answered => exact hI.threads _ hmem _ rfl
        · exact hI.log req r hr
    · rcases mem_set_cases hl hpc with rfl | ⟨j, _, hj⟩
      · rcases hangUpStatus_step hstep hs with hst | hst
        · exact hst
        · exact hI.threads l hmem status hst
      · exact hI.threads pc (List.mem_of_getElem? hj) status hs

/-- A call request has a `transId` that fits a body. -/
theorem length_transId {stream : Bytes} (hP : P.Lawful) {call : Call}
    (h : call ∈ callRequests P stream) : call.transId.length ≤ maxBodyLength := by
  obtain ⟨body, hbody, hcall⟩ := List.mem_filterMap.mp h
  have hle := length_le_of_mem_bodies hbody
  unfold Net.Reader.dealRequest at hcall
  split at hcall
  · cases hcall
  · next msg hmsg =>
    split at hcall
    · cases hcall
    · split at hcall
      · cases hcall
      · split at hcall <;> cases hcall
        exact Nat.le_trans (hP.length_parse body msg hmsg .transId) hle

/-- A response of the card is of an ordinary size. -/
theorem byteSize_response (hP : P.Lawful) {s : Server} (h : Reachable P o cfg s)
    {req : Option Nat} {r : Response} (hr : Obs.response req r ∈ s.hub.shared.log) :
    (callResponse r.transId r.status).byteSize < 2 ^ 31 := by
  obtain ⟨c, hc⟩ : ∃ c, s.parts[r.client]? = some c :=
    ⟨_, List.getElem?_eq_getElem (client_lt h hr)⟩
  have hmem : r.transId ∈ answersTo r.client s.hub.shared.log :=
    List.mem_filterMap.mpr ⟨_, hr, if_pos rfl⟩
  obtain ⟨call, hcall, hid⟩ := List.mem_map.mp ((answersTo_asked h hc).subset hmem)
  have hle := length_transId hP hcall
  have hcard : Cti.Reachable cfg s.hub := by
    obtain ⟨echo, h⟩ := h
    exact ⟨echo, Star.reach_hub h⟩
  rw [byteSize_callResponse (length_status ((reachable_statusInv hcard).log req r hr))]
  rw [hid] at hle
  unfold maxBodyLength at hle
  unfold varintSize32
  split
  · omega
  · rw [if_pos (by omega)]
    omega

/-- What `chat_message(msg)` makes of a response is that answer. -/
theorem answerOf_response (hP : P.Lawful) {data : Buffer} {transId status : Bytes}
    {chMsg : Outgoing} (hsize : (callResponse transId status).byteSize < 2 ^ 31)
    (h : Outgoing.ofMessage P o data (callResponse transId status) = some chMsg) :
    answerOf P chMsg = some (transId, status) := by
  obtain ⟨m, hm, hmsg⟩ : ∃ m, ChatMessage.ofMessage P o data (callResponse transId status) = some m ∧
      m = chMsg.1 := by
    unfold Outgoing.ofMessage at h
    split at h
    · cases h
    · next m hm =>
      cases h
      exact ⟨m, hm, rfl⟩
  have hle : (callResponse transId status).byteSize ≤ maxBodyLength := by
    by_contra hgt
    rw [(ChatMessage.ofMessage_eq_none_iff hP o data hsize).mpr (by omega)] at hm
    cases hm
  obtain ⟨m', hm', _, _, hbody⟩ := ChatMessage.ofMessage_spec hP o data hle
  cases hm.symm.trans hm'
  have hparse := hP.parse_serialize (callResponse transId status) hsize rfl rfl
  rw [answerOf, answerIn, ← hmsg, hbody, hparse]
  rfl

/-! ## Over a run -/

/-- What holds of the server with its sockets: each part is what it comes to by itself, and of
every answer as many are under way to a client or were started as the card has given it. -/
structure WiredInv (P : Protobuf) (o : ByteOrder) (cfg : Cti.Config) (T : Nat) (s : Wired) : Prop where
  server : Reachable P o cfg s.server
  writer : Net.Writer.Reachable T s.writer
  clients : s.writer.shared.length = s.server.parts.length
  conserved : ∀ k key, underway P k key s.writer = tokens (answerTo k) key s.server.hub.shared.log

theorem Reachable.step {s s' : Server} (h : Reachable P o cfg s)
    {m : StarMove Net.Session.Event Unit Cti.Action Int Accepted}
    (hst : (testAll P o cfg).step s m = some s') : Reachable P o cfg s' := by
  obtain ⟨echo, h⟩ := h
  exact ⟨echo, h.step hst⟩

/-- A client connects to the senders. -/
theorem length_accept {w w' : Conf (List Net.Writer.Client) Net.Writer.Pc} {datas : List Buffer}
    (h : (writer T).step w (.env (.accept datas)) = some w') :
    w'.shared.length = w.shared.length + 1 := by
  simp only [Program.step, writer, Net.Writer.env, Option.map_eq_some_iff] at h
  obtain ⟨p, hp, rfl⟩ := h
  split at hp <;> cases hp
  exact List.length_append

/-- No other move of the senders adds a client. -/
theorem length_free {w w' : Conf (List Net.Writer.Client) Net.Writer.Pc}
    {m : Move Net.Writer.Event Net.Writer.Choice} (h : (writer T).step w m = some w')
    (hm : ∀ datas, m ≠ .env (.accept datas)) : w'.shared.length = w.shared.length := by
  rcases Program.step_cases h with ⟨e, cs, new, rfl, he, rfl⟩ | ⟨i, r, l, cs, l', rfl, _, he, rfl⟩
  · dsimp only
    cases e with
    | accept datas => exact absurd rfl (hm datas)
    | spawn =>
      cases he
      rfl
    | transmit | abort | close =>
      obtain ⟨cs', hu, hs⟩ := Option.map_eq_some_iff.mp he
      obtain ⟨cl, cl', _, _, rfl⟩ := Net.Writer.update_eq_some hu
      cases hs
      exact List.length_set
  · dsimp only
    rcases Net.Writer.exec_cases he with ⟨_, _, _, _, _, _, rfl⟩ | ⟨_, _, _, _, rfl, _⟩
    · rfl
    · exact List.length_set

/-- A response of the card comes onto its way to its client. -/
theorem underway_doWrite (hP : P.Lawful) {w w' : Conf (List Net.Writer.Client) Net.Writer.Pc}
    {data : Buffer} {r : Response} (hsize : (callResponse r.transId r.status).byteSize < 2 ^ 31)
    (h : doWrite P o T w data r = some w') (req : Option Nat) (k : Nat) (key : Bytes × Bytes) :
    underway P k key w' = underway P k key w + tok (answerTo k) key (.response req r) := by
  obtain ⟨chMsg, hm, _, rfl⟩ := doWrite_cases h
  have hsame : carries P k (.take r.client chMsg) = answerTo k (.response req r) := by
    rw [carries, answerTo, answerOf_response hP hsize hm]
  have htok : tok (carries P k) key (.take r.client chMsg)
      = tok (answerTo k) key (.response req r) := by
    rw [tok, tok, hsame]
  rw [underway, underway]
  dsimp only
  rw [tokens_append, tokens_cons, tokens_nil, htok]
  omega

theorem reach_doWrite {w w' : Conf (List Net.Writer.Client) Net.Writer.Pc} {data : Buffer}
    {r : Response} (hw : Net.Writer.Reachable T w) (h : doWrite P o T w data r = some w') :
    Net.Writer.Reachable T w' ∧ w'.shared.length = w.shared.length := by
  obtain ⟨chMsg, _, hrun, rfl⟩ := doWrite_cases h
  exact ⟨hw.trans ((Program.reach_of_run hrun).mono fun _ _ _ => trivial), rfl⟩

theorem WiredInv.step (hP : P.Lawful) {s s' : Wired} (hI : WiredInv P o cfg T s) {e : WiredEvent}
    (h : wiredStep P o cfg T s e = some s') : WiredInv P o cfg T s' := by
  cases e with
  | session k m =>
    obtain ⟨server, hst, rfl⟩ := Option.map_eq_some_iff.mp h
    refine ⟨hI.server.step hst, hI.writer, hI.clients.trans (Star.length_of_part hst).symm, ?_⟩
    intro j key
    rw [hI.conserved j key]
    rcases Star.hub_of_part hst with hhub | ⟨a, hhub⟩
    · rw [hhub]
    · exact (answers_env hhub j key).symm
  | card m data =>
    simp only [wiredStep] at h
    split at h
    · cases h
    · next server hst =>
      have hserver := hI.server.step hst
      have hlen := hI.clients.trans (Star.length_of_hub hst).symm
      rcases responded_cases (Star.hub_of_hub hst) with ⟨hnone, hlog⟩ | ⟨req, r, hsome, hlog⟩
      · rw [hnone] at h
        cases h
        exact ⟨hserver, hI.writer, hlen, fun k key => (hI.conserved k key).trans (hlog k key).symm⟩
      · rw [hsome] at h
        obtain ⟨w, hw, rfl⟩ := Option.map_eq_some_iff.mp h
        obtain ⟨hreach, hclients⟩ := reach_doWrite hI.writer hw
        refine ⟨hserver, hreach, hclients.trans hlen, fun k key => ?_⟩
        have hmem : Obs.response req r ∈ server.hub.shared.log := by
          rw [hlog]
          exact List.mem_cons_self ..
        have hsize := byteSize_response hP hserver hmem
        dsimp only
        rw [underway_doWrite hP hsize hw req, hI.conserved, hlog, tokens_cons, Nat.add_comm]
  | accept a datas =>
    simp only [wiredStep] at h
    split at h
    · cases h
    · next server hst =>
      obtain ⟨w, hw, rfl⟩ := Option.map_eq_some_iff.mp h
      refine ⟨hI.server.step hst, hI.writer.tail ⟨_, trivial, hw⟩, ?_, fun k key => ?_⟩
      · dsimp only
        rw [length_accept hw, Star.length_of_join hst, hI.clients]
      · dsimp only
        rw [underway_step hw nofun, hI.conserved, Star.hub_of_join hst]
  | sender m =>
    simp only [wiredStep] at h
    split at h
    · next hok =>
      have hfree := (Bool.and_eq_true_iff.mp hok).2
      obtain ⟨w, hw, rfl⟩ := Option.map_eq_some_iff.mp h
      refine ⟨hI.server, hI.writer.tail ⟨_, trivial, hw⟩, ?_, fun k key => ?_⟩
      · refine (length_free hw ?_).trans hI.clients
        rintro datas rfl
        cases hfree
      · dsimp only
        rw [underway_step hw ?_, hI.conserved]
        rintro i c chMsg rfl
        exact Option.isNone_iff_eq_none.mp hfree
    · cases h

theorem wiredInv (hP : P.Lawful) {s : Wired} (h : WiredReachable P o cfg T s) :
    WiredInv P o cfg T s := by
  obtain ⟨echo, es, h⟩ := h
  refine runs_rule (WiredInv P o cfg T) (fun _ => True) (fun _ _ _ hI _ hst => hI.step hP hst) ?_
    (fun _ _ => trivial) h
  refine ⟨⟨echo, [], rfl⟩, Relation.ReflTransGen.refl, rfl, fun k key => ?_⟩
  have hnone : tokens (carries P k) key (List.replicate T Net.Writer.Pc.ready) = 0 := by
    refine tokens_eq_zero_iff.mpr fun l hl hc => ?_
    rw [(List.mem_replicate.mp hl).2] at hc
    cases hc
  show tokens (answerOf P) key [] + tokens (carries P k) key (List.replicate T .ready)
    = tokens (answerTo k) key []
  rw [hnone, tokens_nil, tokens_nil]

/-! ## What a client reads -/

/-- Every send to the client has transmitted its whole buffer. -/
def Whole (cl : Net.Writer.Client) : Prop := ∀ p ∈ cl.performed, p.2 = p.1.1.length

/-- The answers read off the wire are those of the sends performed. -/
theorem answersRead_eq {cl : Net.Writer.Client} (hs : Net.Writer.SentInv cl) (hw : Whole cl) :
    answersRead P cl.wire = (cl.performed.map Prod.fst).filterMap (answerOf P) := by
  have hwire : cl.wire = ((cl.performed.map Prod.fst).map fun m => m.1.frame).flatten := by
    rw [hs.wire, List.map_map]
    refine congrArg List.flatten (List.map_congr_left fun p hp => ?_)
    rw [hw p hp]
    exact List.take_of_length_le (Nat.le_of_eq (ChatMessage.length_frame _))
  rw [answersRead, hwire, Net.Writer.bodies_flatten_frame, List.filterMap_map]
  rfl

/-- What the clients read, and what is still on its way to them. -/
structure Delivers (P : Protobuf) (s : Wired) : Prop where
  /-- Of every answer, a client that is connected has read as many as the card has given it,
  but for those whose send waits its turn and those with which a thread is in `do_write`. -/
  once : ∀ (k : Nat) cl, s.writer.shared[k]? = some cl → cl.closed = false → Whole cl → ∀ key,
    (answersRead P cl.wire).count key + tokens (answerOf P) key (cl.sending.map (·.chMsg))
      + tokens (carries P k) key s.writer.threads
      = (s.server.hub.shared.log.filterMap (answerTo k)).count key
  /-- A client reads answers to call requests of its own stream, and to none twice. -/
  own : ∀ (k : Nat) cl, s.writer.shared[k]? = some cl → Whole cl →
    ∃ c : Conf Net.Session.Shared Net.Session.Pc, s.server.parts[k]? = some c ∧ ((answersRead P cl.wire).map Prod.fst).Subperm
        ((callRequests P c.shared.reader.stream).map Call.transId)
  /-- Each says that the call was made, failed, or timed out. -/
  status : ∀ (k : Nat) cl, s.writer.shared[k]? = some cl → Whole cl → ∀ a ∈ answersRead P cl.wire,
    IsStatus a.2
  /-- A buffer is free, or in the hands of one thread, one send or one handler. -/
  buffers : ∀ (k : Nat) cl, s.writer.shared[k]? = some cl → ∀ b, b < cl.buffers.length →
    cl.pool.count b + tokens (Net.Writer.Pc.writing k) b s.writer.threads
      + Net.Writer.owners k b cl s.writer.threads = 1

theorem map_fst_answerTo (k : Nat) (log : List Obs) :
    (log.filterMap (answerTo k)).map Prod.fst = answersTo k log := by
  rw [answersTo, List.map_filterMap]
  refine List.filterMap_congr fun ob _ => ?_
  cases ob with
  | response req r =>
    simp only [answerTo]
    split <;> rfl
  | _ => rfl

/-- What a client has read is among what the card has answered it. -/
theorem WiredInv.read_subperm {s : Wired} (hI : WiredInv P o cfg T s) {cl : Net.Writer.Client}
    (hcl : s.writer.shared[k]? = some cl) (hw : Whole cl) :
    (answersRead P cl.wire).Subperm (s.server.hub.shared.log.filterMap (answerTo k)) := by
  refine List.subperm_ext_iff.mpr fun key _ => ?_
  have hcount := hI.conserved k key
  rw [underway, startedFor, hcl] at hcount
  change tokens (answerOf P) key cl.started + _ = _ at hcount
  have hprefix := (Net.Writer.performed_prefix hI.writer k cl hcl).sublist.filterMap (answerOf P)
  rw [answersRead_eq (Net.Writer.sentInv hI.writer k cl hcl) hw]
  calc ((cl.performed.map Prod.fst).filterMap (answerOf P)).count key
      ≤ (cl.started.filterMap (answerOf P)).count key := hprefix.count_le key
    _ = tokens (answerOf P) key cl.started := count_filterMap_eq_tokens ..
    _ ≤ tokens (answerTo k) key s.server.hub.shared.log := by omega
    _ = (s.server.hub.shared.log.filterMap (answerTo k)).count key :=
      (count_filterMap_eq_tokens ..).symm

/-- **What the clients read are the answers to what they have asked**, over every run of the
sessions, the card and the senders. -/
theorem delivers (hP : P.Lawful) {s : Wired} (h : WiredReachable P o cfg T s) : Delivers P s := by
  have hI := wiredInv hP h
  refine ⟨?_, ?_, ?_, ?_⟩
  · intro k cl hcl hopen hw key
    have hs := Net.Writer.sentInv hI.writer k cl hcl
    have hcount := hI.conserved k key
    rw [underway, startedFor, hcl] at hcount
    change tokens (answerOf P) key cl.started + _ = _ at hcount
    rw [hs.started hopen, tokens_append] at hcount
    rw [answersRead_eq hs hw, count_filterMap_eq_tokens, count_filterMap_eq_tokens]
    exact hcount
  · intro k cl hcl hw
    have hlt : k < s.server.parts.length := by
      rw [← hI.clients]
      exact (List.getElem?_eq_some_iff.mp hcl).1
    refine ⟨_, List.getElem?_eq_getElem hlt, ?_⟩
    obtain ⟨answers, hperm, hsub⟩ := hI.read_subperm hcl hw
    have hids := hsub.map Prod.fst
    rw [map_fst_answerTo] at hids
    have hread : ((answersRead P cl.wire).map Prod.fst).Subperm (answersTo k s.server.hub.shared.log) :=
      ⟨_, hperm.map Prod.fst, hids⟩
    exact hread.trans (answersTo_asked hI.server (List.getElem?_eq_getElem hlt))
  · intro k cl hcl hw a ha
    obtain ⟨ob, hob, hans⟩ := List.mem_filterMap.mp ((hI.read_subperm hcl hw).subset ha)
    obtain ⟨echo, hcard⟩ := hI.server
    have hstatus := reachable_statusInv ⟨echo, Star.reach_hub hcard⟩
    cases ob with
    | response req r =>
      simp only [answerTo] at hans
      split at hans <;> cases hans
      exact hstatus.log req r hob
    | _ => cases hans
  · intro k cl hcl b hb
    have hplaces := Net.Writer.places_any (Net.Writer.anyReachable_of_reachable hI.writer) hcl b
    rw [if_pos hb, Net.Writer.places_eq] at hplaces
    exact hplaces

/-- `oneCall`, with the answer written to the client. -/
def oneAnswer : List WiredEvent :=
  oneCall.map (fun
    | .join a => .accept a [Net.zeroed]
    | .part k m => .session k m
    | .hub m => .card m Net.zeroed) ++
  [.sender (.run 1 .go), .sender (.run 1 .go), .sender (.run 1 .go),
    .sender (.env (.transmit 0 19))]

theorem delivers_oneAnswer :
    ∃ s, runs (wiredStep Net.knownFields .little Cti.oneChannel 1)
        (wiredStart Cti.oneChannel (fun _ => true) 1) oneAnswer = some s ∧
      Delivers Net.knownFields s := by
  have hsome : (runs (wiredStep Net.knownFields .little Cti.oneChannel 1)
      (wiredStart Cti.oneChannel (fun _ => true) 1) oneAnswer).isSome = true := by
    decide +kernel
  obtain ⟨s, hs⟩ := Option.isSome_iff_exists.mp hsome
  exact ⟨s, hs, delivers Net.knownFields_lawful ⟨_, _, hs⟩⟩

example : (runs (wiredStep Net.knownFields .little Cti.oneChannel 1)
      (wiredStart Cti.oneChannel (fun _ => true) 1) oneAnswer).map (fun s =>
        s.writer.shared.map fun cl => answersRead Net.knownFields cl.wire)
    = some [[([1], ciaCallSuccess)]] := by
  decide +kernel

end CiaServer
