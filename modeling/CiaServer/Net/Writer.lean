import CiaServer.Interleave.Program
import CiaServer.Net.ChatMessage

/-!
# Sending: `do_write` and its buffers (`cia_client.hpp`, `blocking_queue.hpp`)

`do_write` takes a buffer out of the client's `m_write_msg_queue_`, copies the
message into it and starts an `async_send`; the completion handler puts the
buffer back. `Take` waits while the queue is empty. The completion handlers run
on the io threads, and so do the handlers that call `do_write`.

Threads `0 … T - 1` are the io threads of the `io_service`; the threads after
them are the voice card's, which call `do_write` and run no handlers. A thread
chooses what to do when it is `ready`; `write` stands for every handler or
callback that comes to call `do_write`, such as a login request, a heartbeat or
the answer to a call.

Mirroring notes:
- Any thread may call `do_write` on any client at any time: requests, timers
  and driver events come in every order.
- `async_send` transmits a non-empty prefix of its buffer or fails; the sends of
  one client are performed in the order they were started. A send may stay
  pending for ever.
- `Take` and `Put` hold the queue's mutex to their end; each is one step.
- A message for `do_write` is an `Outgoing`: `chat_message(msg)` has encoded its
  header (`Outgoing.ofMessage`).
- `m_update_time`, the registry of clients and the reads are not the writer's.
-/

namespace CiaServer.Net.Writer

open Wire Interleave

/-- A message whose header tells its length. -/
abbrev Outgoing := { m : ChatMessage // m.header = be headerLength m.bodyLength }

/-- An `async_send` that is not performed: `len` bytes from the buffer's `m_data`. -/
structure Send where
  buffer : Nat
  len : Nat
  /-- What `do_write` was called with. -/
  chMsg : Outgoing
  deriving DecidableEq

/-- The writing side of a `cia_client`. -/
structure Client where
  /-- `m_write_msg_queue_` -/
  pool : List Nat
  /-- The `chat_message` of each buffer. -/
  buffers : List ChatMessage
  sending : List Send
  /-- Buffers of performed sends, with the error code for their handlers. -/
  completed : List (Nat × Bool)
  /-- The connection failed, or `stop()` closed the socket. -/
  closed : Bool
  /-- Every byte transmitted. -/
  wire : Bytes
  /-- The messages of all sends started, in order. -/
  started : List Outgoing
  /-- The messages of all sends performed, with the number of bytes sent. -/
  performed : List (Outgoing × Nat)
  deriving DecidableEq

/-- Where a thread stands. -/
inductive Pc where
  | ready
  | take (c : Nat) (chMsg : Outgoing)
  | fill (c : Nat) (chMsg : Outgoing) (b : Nat)
  | send (c : Nat) (chMsg : Outgoing) (b : Nat)
  | put (c : Nat) (b : Nat) (ec : Bool)
  | stop (c : Nat)
  deriving DecidableEq

/-- What a thread does next. -/
inductive Choice where
  | write (c : Nat) (chMsg : Outgoing)
  | handle (c : Nat) (j : Nat)
  | go
  deriving DecidableEq

/-- What the rest of the world does. -/
inductive Event where
  | accept (datas : List Buffer)
  | spawn
  | transmit (c : Nat) (k : Nat)
  | abort (c : Nat)
  | close (c : Nat)

namespace Client

/-- `cia_client::cia_client`: one buffer for each io thread. -/
def new (datas : List Buffer) : Client :=
  { pool := List.range datas.length, buffers := datas.map ChatMessage.new, sending := []
    completed := [], closed := false, wire := [], started := [], performed := [] }

/-- `m_write_msg_queue_.Take()`; `none` is the wait. -/
def take (cl : Client) : Option (Client × Nat) :=
  match cl.pool with
  | [] => none
  | b :: bs => some ({ cl with pool := bs }, b)

/-- `*_ch_msg = ch_msg`. -/
def fill (cl : Client) (chMsg : Outgoing) (b : Nat) : Client :=
  { cl with buffers := cl.buffers.set b chMsg.1 }

/-- `m_sock_.async_send(buffer(_ch_msg->data(), _ch_msg->length()), …)`. -/
def asyncSend (cl : Client) (chMsg : Outgoing) (b : Nat) : Option Client :=
  match cl.buffers[b]? with
  | none => none
  | some m =>
    some { cl with
      sending := cl.sending ++ [{ buffer := b, len := m.length, chMsg }]
      started := cl.started ++ [chMsg] }

/-- A completion handler is run. -/
def handle (cl : Client) (j : Nat) : Option (Client × Nat × Bool) :=
  match cl.completed[j]? with
  | none => none
  | some p => some ({ cl with completed := cl.completed.eraseIdx j }, p)

/-- `m_write_msg_queue_.Put(_ch_msg)`. -/
def put (cl : Client) (b : Nat) : Client := { cl with pool := cl.pool ++ [b] }

/-- The send at the head transmits `k` bytes. -/
def transmit (cl : Client) (k : Nat) : Option Client :=
  match cl.sending with
  | [] => none
  | sd :: sds =>
    match cl.buffers[sd.buffer]? with
    | none => none
    | some m =>
      -- what is in the buffer now, and `k` may be less than the whole
      if cl.closed = false ∧ 0 < k ∧ k ≤ sd.len then
        some { cl with
          sending := sds
          completed := cl.completed ++ [(sd.buffer, false)]
          wire := cl.wire ++ slice m.data.1 0 k
          performed := cl.performed ++ [(sd.chMsg, k)] }
      else none

/-- The send at the head of a closed connection fails. -/
def abort (cl : Client) : Option Client :=
  match cl.sending with
  | [] => none
  | sd :: sds =>
    if cl.closed then
      some { cl with sending := sds, completed := cl.completed ++ [(sd.buffer, true)] }
    else none

end Client

/-- Client `c` after `f`. -/
def update (cs : List Client) (c : Nat) (f : Client → Option Client) : Option (List Client) :=
  match cs[c]? with
  | none => none
  | some cl => (f cl).map (cs.set c)

/-- What the peers and the operating system do. -/
def env (T : Nat) (cs : List Client) (_ : Nat) : Event → Option (List Client × List Pc)
  | .accept datas => if datas.length = T then some (cs ++ [Client.new datas], []) else none
  | .spawn => some (cs, [.ready])
  | .transmit c k => (update cs c fun cl => cl.transmit k).map fun cs' => (cs', [])
  | .abort c => (update cs c Client.abort).map fun cs' => (cs', [])
  | .close c => (update cs c fun cl => some { cl with closed := true }).map fun cs' => (cs', [])

/-- The next step of a thread. -/
def exec (T : Nat) (cs : List Client) (i : Nat) : Pc → Choice → Option (List Client × Pc)
  | .ready, .write c chMsg => if c < cs.length then some (cs, .take c chMsg) else none
  -- only the io threads run the completion handlers
  | .ready, .handle c j =>
    match cs[c]? with
    | none => none
    | some cl =>
      if i < T then (cl.handle j).map fun p => (cs.set c p.1, .put c p.2.1 p.2.2) else none
  | .take c chMsg, .go =>
    match cs[c]? with
    | none => none
    | some cl => cl.take.map fun p => (cs.set c p.1, .fill c chMsg p.2)
  | .fill c chMsg b, .go =>
    (update cs c fun cl => some (cl.fill chMsg b)).map fun cs' => (cs', .send c chMsg b)
  | .send c chMsg b, .go =>
    (update cs c fun cl => cl.asyncSend chMsg b).map fun cs' => (cs', .ready)
  -- the handler of a failed send stops the client, after it has put the buffer back
  | .put c b ec, .go =>
    (update cs c fun cl => some (cl.put b)).map fun cs' =>
      (cs', if ec then .stop c else .ready)
  | .stop c, .go =>
    (update cs c fun cl => some { cl with closed := true }).map fun cs' => (cs', .ready)
  | _, _ => none

/-- The senders of a server with `T` io threads. -/
def writer (T : Nat) : Program (List Client) Pc Event Choice := { env := env T, exec := exec T }

/-- The io threads run, and nobody has connected. -/
def start (T : Nat) : Conf (List Client) Pc :=
  { shared := [], threads := List.replicate T .ready }

/-- What a server with `T` io threads can come to. -/
def Reachable (T : Nat) (s : Conf (List Client) Pc) : Prop :=
  (writer T).Reach (fun _ _ => True) (start T) s

/-! ## What the messages are -/

/-- `chat_message(msg)` encodes the header of what it builds. -/
theorem header_ofMessage {P : Protobuf} {o : ByteOrder} {data : Buffer} {msg : CiaMessage}
    {m : ChatMessage} (h : ChatMessage.ofMessage P o data msg = some m) :
    m.header = be headerLength m.bodyLength := by
  unfold ChatMessage.ofMessage at h
  split at h
  · cases h
  · next data' hw =>
    obtain ⟨m', hm', hn, hh, _⟩ := ChatMessage.encodeHeader_spec o
      { data := data', bodyLength := ChatMessage.clampBodyLength msg.byteSize
        bodyLength_le := ChatMessage.clampBodyLength_le _ }
    cases hm'.symm.trans h
    rw [hh, hn]

/-- The message `do_write` is called with. -/
def Outgoing.ofMessage (P : Protobuf) (o : ByteOrder) (data : Buffer) (msg : CiaMessage) :
    Option Outgoing :=
  match h : ChatMessage.ofMessage P o data msg with
  | none => none
  | some m => some ⟨m, header_ofMessage h⟩

/-- What `do_deal_login_request` answers with. -/
def loginResponse : CiaMessage :=
  (CiaMessage.empty.set .type ciaLoginResponse).set .status ciaLoginSuccess

/-- The answer to a login as `do_write` gets it. -/
def loginAnswer : Outgoing :=
  (Outgoing.ofMessage knownFields .little zeroed loginResponse).get (by decide +kernel)

/-- Thread `i` answers a login of client `c`, as far as the start of the send. -/
def answerLogin (i c : Nat) : List (Move Event Choice) :=
  [.run i (.write c loginAnswer), .run i .go, .run i .go, .run i .go]

/-! ## What a move does -/

/-- A step of a thread inside client `c`: the client and the thread before and
after. -/
inductive ClientStep (c : Nat) : Client → Pc → Client → Pc → Prop where
  | take {cl : Client} {chMsg : Outgoing} {b : Nat} {bs : List Nat} (h : cl.pool = b :: bs) :
    ClientStep c cl (.take c chMsg) { cl with pool := bs } (.fill c chMsg b)
  | fill {cl : Client} {chMsg : Outgoing} {b : Nat} :
    ClientStep c cl (.fill c chMsg b) (cl.fill chMsg b) (.send c chMsg b)
  | send {cl : Client} {chMsg : Outgoing} {b : Nat} {m : ChatMessage}
    (h : cl.buffers[b]? = some m) :
    ClientStep c cl (.send c chMsg b)
      { cl with
        sending := cl.sending ++ [{ buffer := b, len := m.length, chMsg }]
        started := cl.started ++ [chMsg] } .ready
  | handle {cl : Client} {j b : Nat} {ec : Bool} (h : cl.completed[j]? = some (b, ec)) :
    ClientStep c cl .ready { cl with completed := cl.completed.eraseIdx j } (.put c b ec)
  | put {cl : Client} {b : Nat} {ec : Bool} :
    ClientStep c cl (.put c b ec) (cl.put b) (if ec then .stop c else .ready)
  | stop {cl : Client} : ClientStep c cl (.stop c) { cl with closed := true } .ready

/-- What happens to a client without a thread. -/
inductive ClientEvent : Client → Client → Prop where
  | transmit {cl : Client} {sd : Send} {sds : List Send} {m : ChatMessage} {k : Nat}
    (h : cl.sending = sd :: sds) (hm : cl.buffers[sd.buffer]? = some m)
    (hopen : cl.closed = false) (hk : 0 < k) (hlen : k ≤ sd.len) :
    ClientEvent cl
      { cl with
        sending := sds
        completed := cl.completed ++ [(sd.buffer, false)]
        wire := cl.wire ++ slice m.data.1 0 k
        performed := cl.performed ++ [(sd.chMsg, k)] }
  | abort {cl : Client} {sd : Send} {sds : List Send} (h : cl.sending = sd :: sds)
    (hclosed : cl.closed = true) :
    ClientEvent cl { cl with sending := sds, completed := cl.completed ++ [(sd.buffer, true)] }
  | close {cl : Client} : ClientEvent cl { cl with closed := true }

theorem update_eq_some {cs cs' : List Client} {c : Nat} {f : Client → Option Client}
    (h : update cs c f = some cs') : ∃ cl cl', cs[c]? = some cl ∧ f cl = some cl' ∧
      cs' = cs.set c cl' := by
  unfold update at h
  split at h
  · cases h
  · next cl hcl =>
    obtain ⟨cl', hf, rfl⟩ := Option.map_eq_some_iff.mp h
    exact ⟨cl, cl', hcl, hf, rfl⟩

/-- A thread enters `do_write`, or it takes a step inside one client. -/
theorem exec_cases {T i : Nat} {cs cs' : List Client} {l l' : Pc} {r : Choice}
    (h : exec T cs i l r = some (cs', l')) :
    (∃ c chMsg, r = .write c chMsg ∧ l = .ready ∧ l' = .take c chMsg ∧ c < cs.length ∧ cs' = cs) ∨
    (∃ c cl cl', cs[c]? = some cl ∧ cs' = cs.set c cl' ∧ ClientStep c cl l cl' l') := by
  unfold exec at h
  split at h
  · next c chMsg =>
    split at h
    · next hc =>
      cases h
      exact Or.inl ⟨c, chMsg, rfl, rfl, rfl, hc, rfl⟩
    · cases h
  · next c j =>
    split at h
    · cases h
    · next cl hcl =>
      split at h
      · obtain ⟨p, hp, hs⟩ := Option.map_eq_some_iff.mp h
        unfold Client.handle at hp
        split at hp
        · cases hp
        · next q hq =>
          cases hp
          cases hs
          exact Or.inr ⟨c, cl, _, hcl, rfl, .handle hq⟩
      · cases h
  · next c chMsg =>
    split at h
    · cases h
    · next cl hcl =>
      obtain ⟨p, hp, hs⟩ := Option.map_eq_some_iff.mp h
      unfold Client.take at hp
      split at hp
      · cases hp
      · next b bs hpool =>
        cases hp
        cases hs
        exact Or.inr ⟨c, cl, _, hcl, rfl, .take hpool⟩
  · next c chMsg b =>
    obtain ⟨cs₁, hu, hs⟩ := Option.map_eq_some_iff.mp h
    obtain ⟨cl, cl', hcl, hf, rfl⟩ := update_eq_some hu
    cases hf
    cases hs
    exact Or.inr ⟨c, cl, _, hcl, rfl, .fill⟩
  · next c chMsg b =>
    obtain ⟨cs₁, hu, hs⟩ := Option.map_eq_some_iff.mp h
    obtain ⟨cl, cl', hcl, hf, rfl⟩ := update_eq_some hu
    unfold Client.asyncSend at hf
    split at hf
    · cases hf
    · next m hm =>
      cases hf
      cases hs
      exact Or.inr ⟨c, cl, _, hcl, rfl, .send hm⟩
  · next c b ec =>
    obtain ⟨cs₁, hu, hs⟩ := Option.map_eq_some_iff.mp h
    obtain ⟨cl, cl', hcl, hf, rfl⟩ := update_eq_some hu
    cases hf
    cases hs
    exact Or.inr ⟨c, cl, _, hcl, rfl, .put⟩
  · next c =>
    obtain ⟨cs₁, hu, hs⟩ := Option.map_eq_some_iff.mp h
    obtain ⟨cl, cl', hcl, hf, rfl⟩ := update_eq_some hu
    cases hf
    cases hs
    exact Or.inr ⟨c, cl, _, hcl, rfl, .stop⟩
  · cases h

/-- Somebody connects, a thread of the voice card starts, or something happens
to one client. -/
theorem env_cases {T n : Nat} {cs cs' : List Client} {e : Event} {new : List Pc}
    (h : env T cs n e = some (cs', new)) :
    (∃ datas : List Buffer, datas.length = T ∧ cs' = cs ++ [Client.new datas] ∧ new = []) ∨
    (cs' = cs ∧ new = [.ready]) ∨
    (∃ c cl cl', cs[c]? = some cl ∧ cs' = cs.set c cl' ∧ new = [] ∧ ClientEvent cl cl') := by
  cases e with
  | accept datas =>
    simp only [env] at h
    split at h
    · next hT =>
      cases h
      exact Or.inl ⟨datas, hT, rfl, rfl⟩
    · cases h
  | spawn =>
    cases h
    exact Or.inr (Or.inl ⟨rfl, rfl⟩)
  | transmit c k =>
    obtain ⟨cs₁, hu, hs⟩ := Option.map_eq_some_iff.mp h
    obtain ⟨cl, cl', hcl, hf, rfl⟩ := update_eq_some hu
    unfold Client.transmit at hf
    split at hf
    · cases hf
    · next sd sds hsend =>
      split at hf
      · cases hf
      · next m hm =>
        split at hf
        · next hc =>
          cases hf
          cases hs
          exact Or.inr (Or.inr ⟨c, cl, _, hcl, rfl, rfl, .transmit hsend hm hc.1 hc.2.1 hc.2.2⟩)
        · cases hf
  | abort c =>
    obtain ⟨cs₁, hu, hs⟩ := Option.map_eq_some_iff.mp h
    obtain ⟨cl, cl', hcl, hf, rfl⟩ := update_eq_some hu
    unfold Client.abort at hf
    split at hf
    · cases hf
    · next sd sds hsend =>
      split at hf
      · next hc =>
        cases hf
        cases hs
        exact Or.inr (Or.inr ⟨c, cl, _, hcl, rfl, rfl, .abort hsend hc⟩)
      · cases hf
  | close c =>
    obtain ⟨cs₁, hu, hs⟩ := Option.map_eq_some_iff.mp h
    obtain ⟨cl, cl', hcl, hf, rfl⟩ := update_eq_some hu
    cases hf
    cases hs
    exact Or.inr (Or.inr ⟨c, cl, _, hcl, rfl, rfl, .close⟩)

end CiaServer.Net.Writer
