import CiaServer.Interleave.Program
import CiaServer.Net.ChatMessage

/-!
# The reader of a session (`cia_client.hpp`)

`do_read_header` and `do_read_body` arm one `async_read` each, and each
completion handler arms the other's. The body handler copies `m_read_msg_`,
arms the next header read and only then calls `do_deal_request` with the copy,
so the buffer is overwritten while earlier requests are still being parsed.

The shared state is the session and the peer's byte stream; every completion
handler is a thread, one step for each call that others can see. The bytes of
one `async_read` come in any number of pieces.

Mirroring notes:
- `async_read` puts exactly the requested bytes into the buffer and calls its
  handler without an error, or it calls its handler with one.
- `stream` is what the peer got through before the connection ended; `finish`
  ends it after any number of the bytes under way.
- `stopElsewhere` is `stop()` from the inactivity check or from a failed send.
  The closed socket then gives an error to every read.
- A piece that does not fit into `m_data` sets `overrun`.
- `m_update_time`, the timer, the registry of clients and what
  `do_deal_request` does with a request are not the reader's.
-/

namespace CiaServer.Net.Reader

open Wire Interleave

/-- Whose `async_read`: `do_read_header`'s or `do_read_body`'s. -/
inductive Part where
  | header
  | body
  deriving DecidableEq, Repr

/-- An `async_read` that is not complete: `got` of `want` bytes are in `m_data`
from `off` on. -/
structure AsyncRead where
  part : Part
  off : Nat
  want : Nat
  got : Nat
  deriving DecidableEq, Repr

/-- The session as its reader sees it. -/
structure Session where
  started : Bool
  readMsg : ChatMessage
  reading : Option AsyncRead
  /-- Bytes on their way from the peer. -/
  unread : Bytes
  /-- The connection ended behind `unread`. -/
  ended : Bool
  /-- Every byte read so far, in order. -/
  taken : Bytes
  /-- Somebody else called `stop()` on the running session. -/
  stoppedElsewhere : Bool
  /-- A read wrote outside `m_data`. -/
  overrun : Bool
  deriving DecidableEq

/-- What `do_deal_request` makes of a request. -/
inductive Request where
  | ignored
  | login
  | heart
  | callOut (transId authCode pn : Bytes)
  deriving DecidableEq, Repr

/-- A completion handler, where it stands. -/
inductive Handler where
  | onHeader (ec : Bool)
  | readBody
  | onBody (ec : Bool)
  | readHeader (chMsg : ChatMessage)
  | deal (chMsg : ChatMessage)
  | dealt (body : Bytes) (request : Request)
  | stop
  | done
  deriving DecidableEq

/-- What the rest of the world does. -/
inductive Event where
  | arrive (bs : Bytes)
  | finish (k : Nat)
  | deliver (k : Nat)
  | complete
  | fail
  | stopElsewhere
  deriving DecidableEq, Repr

/-- `do_deal_request`, up to the branch it takes. -/
def dealRequest (P : Protobuf) (body : Bytes) : Request :=
  match P.parse body with
  | none => .ignored
  | some msg =>
    if msg.value .type = ciaLoginRequest then .login
    else if msg.value .type = ciaHeartResponse then .heart
    else if msg.value .type = ciaCallRequest then
      .callOut (msg.value .transId) (msg.value .authCode) (msg.value .pn)
    else .ignored

/-- The `async_read` of `do_read_header`. -/
def asyncReadHeader : AsyncRead := { part := .header, off := 0, want := headerLength, got := 0 }

/-- The `async_read` of `do_read_body`. -/
def asyncReadBody (m : ChatMessage) : AsyncRead :=
  { part := .body, off := headerLength, want := m.bodyLength, got := 0 }

/-- The handler an `async_read` calls. -/
def AsyncRead.handler (r : AsyncRead) (ec : Bool) : Handler :=
  match r.part with
  | .header => .onHeader ec
  | .body => .onBody ec

namespace Session

/-- Everything the peer got through. -/
def stream (s : Session) : Bytes := s.taken ++ s.unread

/-- The next `k` bytes go into the buffer of the read. -/
def deliver (s : Session) (r : AsyncRead) (k : Nat) : Session :=
  match s.readMsg.data.write (r.off + r.got) (s.unread.take k) with
  | none => { s with overrun := true }
  | some data =>
    { s with
      readMsg := { s.readMsg with data }
      reading := some { r with got := r.got + k }
      taken := s.taken ++ s.unread.take k
      unread := s.unread.drop k }

/-- No more bytes will come for the read. -/
def Broken (s : Session) (r : AsyncRead) : Prop :=
  s.started = false ∨ (s.ended = true ∧ s.unread = [] ∧ r.got < r.want)

instance (s : Session) (r : AsyncRead) : Decidable (s.Broken r) :=
  inferInstanceAs (Decidable (_ ∨ _))

end Session

/-- What the peer, the operating system and other handlers do to a session. -/
def env (s : Session) (_ : Nat) : Event → Option (Session × List Handler)
  | .arrive bs => if s.ended then none else some ({ s with unread := s.unread ++ bs }, [])
  | .finish k =>
    if s.ended then none else some ({ s with unread := s.unread.take k, ended := true }, [])
  | .deliver k =>
    match s.reading with
    | none => none
    | some r =>
      if s.started = true ∧ 0 < k ∧ r.got + k ≤ r.want ∧ k ≤ s.unread.length then
        some (s.deliver r k, [])
      else none
  | .complete =>
    match s.reading with
    | none => none
    | some r =>
      if r.got = r.want then some ({ s with reading := none }, [r.handler false]) else none
  | .fail =>
    match s.reading with
    | none => none
    | some r => if s.Broken r then some ({ s with reading := none }, [r.handler true]) else none
  -- noted only if the session was still running
  | .stopElsewhere =>
    some ({ s with started := false, stoppedElsewhere := s.stoppedElsewhere || s.started }, [])

/-- The next step of a completion handler. -/
def exec (P : Protobuf) (o : ByteOrder) (s : Session) (_ : Nat) :
    Handler → Unit → Option (Session × Handler)
  | .onHeader true, _ => some (s, .stop)
  | .onHeader false, _ =>
    let d := s.readMsg.decodeHeader o
    some ({ s with readMsg := d.2 }, if d.1 then .readBody else .stop)
  | .readBody, _ => some ({ s with reading := some (asyncReadBody s.readMsg) }, .done)
  | .onBody true, _ => some (s, .stop)
  -- the copy is made before the next read is armed
  | .onBody false, _ => some (s, .readHeader s.readMsg)
  | .readHeader chMsg, _ => some ({ s with reading := some asyncReadHeader }, .deal chMsg)
  | .deal chMsg, _ => some (s, .dealt chMsg.body (dealRequest P chMsg.body))
  | .stop, _ => some ({ s with started := false }, .done)
  | .dealt _ _, _ => none
  | .done, _ => none

/-- What the environment does to a session, and the handler it starts. -/
inductive EnvStep (s : Session) : Event → Session → List Handler → Prop where
  | arrive {bs : Bytes} (he : s.ended ≠ true) :
    EnvStep s (.arrive bs) { s with unread := s.unread ++ bs } []
  | finish {k : Nat} (he : s.ended ≠ true) :
    EnvStep s (.finish k) { s with unread := s.unread.take k, ended := true } []
  | deliver {r : AsyncRead} {k : Nat} (hr : s.reading = some r) (hk₀ : 0 < k)
    (hk : r.got + k ≤ r.want) (hu : k ≤ s.unread.length) :
    EnvStep s (.deliver k) (s.deliver r k) []
  | complete {r : AsyncRead} (hr : s.reading = some r) (hg : r.got = r.want) :
    EnvStep s .complete { s with reading := none } [r.handler false]
  | fail {r : AsyncRead} (hr : s.reading = some r) (hb : s.Broken r) :
    EnvStep s .fail { s with reading := none } [r.handler true]
  | stopElsewhere :
    EnvStep s .stopElsewhere
      { s with started := false, stoppedElsewhere := s.stoppedElsewhere || s.started } []

theorem env_step {s s' : Session} {n : Nat} {e : Event} {new : List Handler}
    (h : env s n e = some (s', new)) : EnvStep s e s' new := by
  unfold env at h
  split at h
  · split at h <;> cases h
    next he => exact .arrive he
  · split at h <;> cases h
    next he => exact .finish he
  · split at h
    · cases h
    · next r hr =>
      split at h <;> cases h
      next hc => exact .deliver hr hc.2.1 hc.2.2.1 hc.2.2.2
  · split at h
    · cases h
    · next r hr =>
      split at h <;> cases h
      next hg => exact .complete hr hg
  · split at h
    · cases h
    · next r hr =>
      split at h <;> cases h
      next hb => exact .fail hr hb
  · cases h
    exact .stopElsewhere

/-- The reader of one session. -/
def reader (P : Protobuf) (o : ByteOrder) : Program Session Handler Event Unit :=
  { env, exec := exec P o }

/-- `start()`: the first header read is armed. -/
def start (data : Buffer) : Conf Session Handler :=
  { shared :=
      { started := true, readMsg := ChatMessage.new data, reading := some asyncReadHeader
        unread := [], ended := false, taken := [], stoppedElsewhere := false, overrun := false }
    threads := [] }

/-- The body a handler gives, or gave, to `do_deal_request`. -/
def Handler.given : Handler → Option Bytes
  | .readHeader chMsg => some chMsg.body
  | .deal chMsg => some chMsg.body
  | .dealt body _ => some body
  | _ => none

/-- The bodies given to `do_deal_request`, in the order of their frames. -/
def handedOut (ts : List Handler) : List Bytes := ts.filterMap Handler.given

/-- A move of the server itself: a piece of a read, a completion, a step of a
handler. -/
def internal : Move Event Unit → Bool
  | .env (.arrive _) => false
  | .env (.finish _) => false
  | .env .stopElsewhere => false
  | _ => true

/-- Nothing happens unless the peer sends, the connection ends or somebody
stops the session. -/
def Quiet (P : Protobuf) (o : ByteOrder) (s : Conf Session Handler) : Prop :=
  ∀ m, internal m = true → (reader P o).step s m = none

end CiaServer.Net.Reader
