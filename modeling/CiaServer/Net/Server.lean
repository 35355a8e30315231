import CiaServer.Interleave.Runs
import CiaServer.Net.InactivityCheck
import CiaServer.Tools.ConfigServer

/-!
# The server and its clients (`cia_server.hpp`, `cia_client.hpp`)

Any number of clients, the vector `clients` of those that are running, and the
acceptor. An operation is outstanding from the call that starts it until its
handler has run; a handler is one step, from its first statement to its last. A
client is an object that exists as long as something refers to it: the vector,
the acceptor, or the handler of an outstanding operation.

Mirroring notes:
- An object is its index in `objects`, and a `shared_ptr` to it is that number.
- Between its start and its handler an operation completes; `queued` says with
  or without an error. After `close()` only what is queued already and a read
  of no bytes may be without one.
- The bytes of a read are in `m_data` when it completes.
- `do_write` takes a buffer and waits while there is none: then the handler is
  not a step yet.
- `expires_from_now` ends the waits that have not completed.
- `clients.erase(clients.end())` is undefined behaviour: `corrupted`.
- Handlers run on the threads the constructor of `cia_server` has started.
- A handler reads the clock once. A call request goes to the voice card, whose
  threads may call `do_write` at any time (`write`).
-/

namespace CiaServer.Net.Server

open Wire Machine Tools
open Reader (AsyncRead asyncReadHeader asyncReadBody dealRequest)

/-- How far an outstanding operation is. -/
inductive Status where
  | pending
  | queued (ec : Bool)
  deriving DecidableEq, Repr

/-- A wait that has not completed is ended with an error. -/
def Status.abort : Status → Status
  | .pending => .queued true
  | .queued ec => .queued ec

/-- An outstanding `async_read`. -/
structure Read where
  op : AsyncRead
  status : Status
  deriving DecidableEq, Repr

/-- A `cia_client`. -/
structure Client where
  started : Bool
  /-- `m_sock_` has been closed. -/
  closed : Bool
  readMsg : ChatMessage
  /-- The buffers in `m_write_msg_queue_`. -/
  writeMsgQueue : Nat
  updateTime : Ptime
  timeoutElapsed : Nat
  isLogin : Bool
  reads : List Read
  sends : List Status
  /-- The waits on `m_check_timeout_timer`. -/
  waits : List Status
  deriving DecidableEq

/-- The global vector. -/
structure Registry where
  clients : List Nat
  /-- An element was erased that is not there. -/
  corrupted : Bool
  deriving DecidableEq, Repr

/-- The server with all objects. -/
structure State where
  registry : Registry
  objects : List Client
  /-- The object whose socket waits for a connection. -/
  accepting : Option Nat
  deriving DecidableEq

/-- What happens to one client. -/
inductive ClientEvent where
  /-- The read at place `k` completes, with `bs` in the buffer. -/
  | readDone (k : Nat) (ec : Bool) (bs : Bytes)
  | sendDone (k : Nat) (ec : Bool)
  | waitDone (k : Nat) (ec : Bool)
  /-- The handler of the read at place `k`. -/
  | onRead (k : Nat) (now : Ptime)
  | onSend (k : Nat) (now : Ptime)
  | onTimer (k : Nat) (now : Ptime)
  /-- A thread of the voice card calls `do_write`. -/
  | write
  deriving DecidableEq, Repr

inductive Event where
  /-- `handle_accept`; `data` is the memory the next client is made in. -/
  | accept (err : Bool) (now : Ptime) (data : Buffer)
  | client (c : Nat) (e : ClientEvent)
  deriving DecidableEq

namespace Client

/-- The constructor of `cia_client`. -/
def new (w : WordSize) (cfg : ConfigServer) (data : Buffer) : Client where
  started := false
  closed := false
  readMsg := ChatMessage.new data
  writeMsgQueue := cfg.getIocpThreadNumber
  updateTime := .zero
  timeoutElapsed := toUnsigned w.bits cfg.getClientSocketTimeoutElapsed
  isLogin := false
  reads := []
  sends := []
  waits := []

def doReadHeader (cl : Client) : Client :=
  { cl with reads := cl.reads ++ [⟨asyncReadHeader, .pending⟩] }

def doReadBody (cl : Client) : Client :=
  { cl with reads := cl.reads ++ [⟨asyncReadBody cl.readMsg, .pending⟩] }

def doWrite (cl : Client) : Option Client :=
  if cl.writeMsgQueue = 0 then none
  else some { cl with writeMsgQueue := cl.writeMsgQueue - 1, sends := cl.sends ++ [.pending] }

def doTimeoutCheck (cl : Client) : Client :=
  if cl.started then { cl with waits := cl.waits.map Status.abort ++ [.pending] } else cl

def doDealRequest (P : Protobuf) (now : Ptime) (chMsg : ChatMessage) (cl : Client) :
    Option Client :=
  match dealRequest P chMsg.body with
  | .login => cl.doWrite.map fun cl => { cl with isLogin := true }
  | .heart => some { cl with updateTime := now }
  | .callOut _ _ _ => some cl
  | .ignored => some cl

/-- The read of `r` puts `bs` into the buffer, which has room for it. -/
def receive (cl : Client) (r : AsyncRead) (bs : Bytes) : Client :=
  { cl with
    readMsg := { cl.readMsg with data := (cl.readMsg.data.write r.off bs).getD cl.readMsg.data } }

end Client

/-- `clients.erase(std::find(clients.begin(), clients.end(), self))`. -/
def Registry.erase (r : Registry) (c : Nat) : Registry :=
  { clients := r.clients.erase c, corrupted := r.corrupted || !r.clients.contains c }

/-! ## The handlers

Each gets the vector and the client `c`, and returns what it makes of them. -/

def start (c : Nat) (now : Ptime) (r : Registry) (cl : Client) : Registry × Client :=
  let cl := { cl with started := true, updateTime := now }.doReadHeader
  ({ r with clients := r.clients ++ [c] }, if cl.timeoutElapsed ≠ 0 then cl.doTimeoutCheck else cl)

def stop (c : Nat) (r : Registry) (cl : Client) : Registry × Client :=
  if cl.started then (r.erase c, { cl with started := false, closed := true }) else (r, cl)

/-- The handler of `do_read_header`. -/
def onHeader (o : ByteOrder) (c : Nat) (ec : Bool) (r : Registry) (cl : Client) :
    Registry × Client :=
  match ec with
  | true => stop c r cl
  | false =>
    let d := cl.readMsg.decodeHeader o
    let cl := { cl with readMsg := d.2 }
    if d.1 then (r, cl.doReadBody) else stop c r cl

/-- The handler of `do_read_body`. -/
def onBody (P : Protobuf) (c : Nat) (ec : Bool) (now : Ptime) (r : Registry) (cl : Client) :
    Option (Registry × Client) :=
  match ec with
  | true => some (stop c r cl)
  | false =>
    ({ cl with updateTime := now }.doReadHeader.doDealRequest P now cl.readMsg).map fun cl => (r, cl)

/-- The handler of `do_write`: its buffer goes back first. -/
def onSend (c : Nat) (ec : Bool) (now : Ptime) (r : Registry) (cl : Client) : Registry × Client :=
  let cl := { cl with writeMsgQueue := cl.writeMsgQueue + 1 }
  match ec with
  | true => stop c r cl
  | false => (r, { cl with updateTime := now })

/-- The handler of `do_timeout_check`. -/
def onTimer (w : WordSize) (c : Nat) (ec : Bool) (now : Ptime) (r : Registry) (cl : Client) :
    Option (Registry × Client) :=
  match ec with
  | true => some (stop c r cl)
  | false =>
    match inactivityCheck w now cl.updateTime cl.timeoutElapsed with
    | .stop =>
      let p := stop c r cl
      some (p.1, p.2.doTimeoutCheck)
    | .heartRequest => cl.doWrite.map fun cl => (r, cl.doTimeoutCheck)
    | .nothing => some (r, cl.doTimeoutCheck)

/-! ## The steps -/

/-- A handler runs, as opposed to the system and to the voice card. -/
def ClientEvent.handler : ClientEvent → Bool
  | .onRead _ _ => true
  | .onSend _ _ => true
  | .onTimer _ _ => true
  | _ => false

/-- One step of client `c`. -/
def clientStep (w : WordSize) (P : Protobuf) (o : ByteOrder) (c : Nat) (r : Registry) (cl : Client) :
    ClientEvent → Option (Registry × Client)
  | .readDone k ec bs =>
    match cl.reads[k]? with
    | some ⟨op, .pending⟩ =>
      if bs.length ≤ op.want ∧ (ec = false → bs.length = op.want ∧ (cl.closed = true → op.want = 0))
      then some (r, { cl.receive op bs with reads := cl.reads.set k ⟨op, .queued ec⟩ })
      else none
    | _ => none
  | .sendDone k ec =>
    if cl.sends[k]? = some .pending ∧ (ec = false → cl.closed = false) then
      some (r, { cl with sends := cl.sends.set k (.queued ec) })
    else none
  | .waitDone k ec =>
    if cl.waits[k]? = some .pending then some (r, { cl with waits := cl.waits.set k (.queued ec) })
    else none
  | .onRead k now =>
    match cl.reads[k]? with
    | some ⟨op, .queued ec⟩ =>
      let cl := { cl with reads := cl.reads.eraseIdx k }
      match op.part with
      | .header => some (onHeader o c ec r cl)
      | .body => onBody P c ec now r cl
    | _ => none
  | .onSend k now =>
    match cl.sends[k]? with
    | some (.queued ec) => some (onSend c ec now r { cl with sends := cl.sends.eraseIdx k })
    | _ => none
  | .onTimer k now =>
    match cl.waits[k]? with
    | some (.queued ec) => onTimer w c ec now r { cl with waits := cl.waits.eraseIdx k }
    | _ => none
  | .write => cl.doWrite.map fun cl => (r, cl)

/-- `handle_accept` for the object `c`. -/
def handleAccept (w : WordSize) (cfg : ConfigServer) (s : State) (c : Nat) (err : Bool) (now : Ptime)
    (data : Buffer) : Option State :=
  if err then some { s with accepting := none }
  else
    match s.objects[c]? with
    | none => none
    | some cl =>
      let p := start c now s.registry cl
      some
        { registry := p.1
          objects := s.objects.set c p.2 ++ [Client.new w cfg data]
          accepting := some s.objects.length }

/-- One step of the server. -/
def step (w : WordSize) (P : Protobuf) (o : ByteOrder) (cfg : ConfigServer) (s : State) :
    Event → Option State
  | .accept err now data =>
    match s.accepting with
    | none => none
    | some c => if cfg.getIocpThreadNumber = 0 then none else handleAccept w cfg s c err now data
  | .client c e =>
    if e.handler = true ∧ cfg.getIocpThreadNumber = 0 then none
    else
      match s.objects[c]? with
      | none => none
      | some cl => (clientStep w P o c s.registry cl e).map fun p =>
        { s with registry := p.1, objects := s.objects.set c p.2 }

/-- The constructor of `cia_server`: the first client waits for its connection. -/
def initial (w : WordSize) (cfg : ConfigServer) (data : Buffer) : State :=
  { registry := { clients := [], corrupted := false }
    objects := [Client.new w cfg data]
    accepting := some 0 }

/-! ## What a step does -/

/-- The ways of `clientStep`. -/
inductive ClientStep (w : WordSize) (P : Protobuf) (o : ByteOrder) (c : Nat) (r : Registry)
    (cl : Client) : ClientEvent → Registry → Client → Prop where
  | readDone {k : Nat} {op : AsyncRead} {ec : Bool} {bs : Bytes}
    (hk : cl.reads[k]? = some ⟨op, .pending⟩)
    (hec : ec = false → cl.closed = true → op.want = 0) :
    ClientStep w P o c r cl (.readDone k ec bs) r
      { cl.receive op bs with reads := cl.reads.set k ⟨op, .queued ec⟩ }
  | sendDone {k : Nat} {ec : Bool} (hk : cl.sends[k]? = some .pending)
    (hec : ec = false → cl.closed = false) :
    ClientStep w P o c r cl (.sendDone k ec) r { cl with sends := cl.sends.set k (.queued ec) }
  | waitDone {k : Nat} {ec : Bool} (hk : cl.waits[k]? = some .pending) :
    ClientStep w P o c r cl (.waitDone k ec) r { cl with waits := cl.waits.set k (.queued ec) }
  /-- a failed read, or a header that cannot be decoded -/
  | readFailed {k : Nat} {now : Ptime} {op : AsyncRead} {ec : Bool} {r' : Registry} {cl' : Client}
    (readMsg : ChatMessage) (hk : cl.reads[k]? = some ⟨op, .queued ec⟩)
    (hstop : stop c r { cl with reads := cl.reads.eraseIdx k, readMsg } = (r', cl')) :
    ClientStep w P o c r cl (.onRead k now) r' cl'
  | header {k : Nat} {now : Ptime} {op : AsyncRead} (readMsg : ChatMessage)
    (hk : cl.reads[k]? = some ⟨op, .queued false⟩) (hop : op.part = .header) :
    ClientStep w P o c r cl (.onRead k now) r
      { cl with reads := cl.reads.eraseIdx k, readMsg }.doReadBody
  | body {k : Nat} {now : Ptime} {op : AsyncRead} {cl' : Client}
    (hk : cl.reads[k]? = some ⟨op, .queued false⟩) (hop : op.part = .body)
    (hdeal : { cl with reads := cl.reads.eraseIdx k, updateTime := now }.doReadHeader.doDealRequest
      P now cl.readMsg = some cl') :
    ClientStep w P o c r cl (.onRead k now) r cl'
  | sendFailed {k : Nat} {now : Ptime} {r' : Registry} {cl' : Client}
    (hk : cl.sends[k]? = some (.queued true))
    (hstop : stop c r
      { cl with sends := cl.sends.eraseIdx k, writeMsgQueue := cl.writeMsgQueue + 1 } = (r', cl')) :
    ClientStep w P o c r cl (.onSend k now) r' cl'
  | sent {k : Nat} {now : Ptime} (hk : cl.sends[k]? = some (.queued false)) :
    ClientStep w P o c r cl (.onSend k now) r
      { cl with
        sends := cl.sends.eraseIdx k
        writeMsgQueue := cl.writeMsgQueue + 1
        updateTime := now }
  | timerFailed {k : Nat} {now : Ptime} {r' : Registry} {cl' : Client}
    (hk : cl.waits[k]? = some (.queued true))
    (hstop : stop c r { cl with waits := cl.waits.eraseIdx k } = (r', cl')) :
    ClientStep w P o c r cl (.onTimer k now) r' cl'
  | timedOut {k : Nat} {now : Ptime} {r' : Registry} {cl' : Client}
    (hk : cl.waits[k]? = some (.queued false))
    (hstop : stop c r { cl with waits := cl.waits.eraseIdx k } = (r', cl')) :
    ClientStep w P o c r cl (.onTimer k now) r' cl'.doTimeoutCheck
  | quiet {k : Nat} {now : Ptime} {cl' : Client} (hk : cl.waits[k]? = some (.queued false))
    (hwrite : { cl with waits := cl.waits.eraseIdx k }.doWrite = some cl') :
    ClientStep w P o c r cl (.onTimer k now) r cl'.doTimeoutCheck
  | busy {k : Nat} {now : Ptime} (hk : cl.waits[k]? = some (.queued false)) :
    ClientStep w P o c r cl (.onTimer k now) r
      { cl with waits := cl.waits.eraseIdx k }.doTimeoutCheck
  | write {cl' : Client} (hwrite : cl.doWrite = some cl') : ClientStep w P o c r cl .write r cl'

theorem clientStep_cases {w : WordSize} {P : Protobuf} {o : ByteOrder} {c : Nat} {r r' : Registry}
    {cl cl' : Client} {e : ClientEvent} (h : clientStep w P o c r cl e = some (r', cl')) :
    ClientStep w P o c r cl e r' cl' := by
  unfold clientStep at h
  split at h
  · split at h
    · next op hk =>
      split at h <;> cases h
      next hc => exact .readDone hk fun he => (hc.2 he).2
    · cases h
  · split at h <;> cases h
    next hc => exact .sendDone hc.1 hc.2
  · split at h <;> cases h
    next hk => exact .waitDone hk
  · split at h
    · next k now op ec hk =>
      dsimp only at h
      split at h
      · next hop =>
        unfold onHeader at h
        split at h
        · exact .readFailed cl.readMsg hk (Option.some.inj h)
        · dsimp only at h
          split at h
          · cases h
            exact .header _ hk hop
          · exact .readFailed _ hk (Option.some.inj h)
      · next hop =>
        unfold onBody at h
        split at h
        · exact .readFailed cl.readMsg hk (Option.some.inj h)
        · obtain ⟨cl₁, hdeal, hs⟩ := Option.map_eq_some_iff.mp h
          cases hs
          exact .body hk hop hdeal
    · cases h
  · split at h
    · next k now ec hk =>
      unfold onSend at h
      dsimp only at h
      split at h
      · exact .sendFailed hk (Option.some.inj h)
      · cases h
        exact .sent hk
    · cases h
  · split at h
    · next k now ec hk =>
      unfold onTimer at h
      split at h
      · exact .timerFailed hk (Option.some.inj h)
      · split at h
        · obtain ⟨rfl, rfl⟩ := Prod.mk.inj (Option.some.inj h)
          exact .timedOut hk rfl
        · obtain ⟨cl₁, hwrite, hs⟩ := Option.map_eq_some_iff.mp h
          cases hs
          exact .quiet hk hwrite
        · cases h
          exact .busy hk
    · cases h
  · obtain ⟨cl₁, hwrite, hs⟩ := Option.map_eq_some_iff.mp h
    cases hs
    exact .write hwrite

/-- What the server can come to. -/
def Reachable (w : WordSize) (P : Protobuf) (o : ByteOrder) (cfg : ConfigServer) (s : State) : Prop :=
  ∃ data es, Interleave.runs (step w P o cfg) (initial w cfg data) es = some s

end CiaServer.Net.Server
