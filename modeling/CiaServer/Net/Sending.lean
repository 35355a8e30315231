import CiaServer.Net.BufferInv

/-!
# Do frames leave the server whole?

`do_write` starts one `async_send` for a message and ignores how much of the
buffer it transmitted. The buffer of a send is nobody else's until its handler
runs (`ContentInv`), so what is transmitted is a prefix of that message's
frame; the next send starts with the next frame whether the prefix was the
whole frame or not.

`sentWhole_iff`: once all sends of a client are performed, the bytes on the wire
are the frames of its messages in order, and the peer reads the messages back,
exactly if every send transmitted its whole buffer. `sentWhole_fails` is the
answer to one login, cut after its first byte.
-/

namespace CiaServer.Net.Writer

open Wire Interleave

/-! ## The buffers keep their messages -/

/-- A buffer holds what `do_write` copied to it as long as it is needed. -/
structure ContentInv (T c : Nat) (cl : Client) (ts : List Pc) : Prop where
  length : cl.buffers.length = T
  held : ∀ chMsg b, Pc.send c chMsg b ∈ ts → cl.buffers[b]? = some chMsg.1
  sending : ∀ sd ∈ cl.sending, cl.buffers[sd.buffer]? = some sd.chMsg.1 ∧
    sd.len = sd.chMsg.1.length

/-- The history of a client agrees with its wire. -/
structure SentInv (cl : Client) : Prop where
  started : cl.closed = false →
    cl.started = cl.performed.map Prod.fst ++ cl.sending.map Send.chMsg
  wire : cl.wire = (cl.performed.map fun p => p.1.1.frame.take p.2).flatten
  len : ∀ p ∈ cl.performed, p.2 ≤ p.1.1.length

variable {T : Nat}

/-- Each send of the client has its message in its buffer. -/
def SendingInv (cl : Client) : Prop :=
  ∀ sd ∈ cl.sending, cl.buffers[sd.buffer]? = some sd.chMsg.1 ∧ sd.len = sd.chMsg.1.length

/-- A step inside a client keeps what its sends hold. -/
theorem ClientStep.sendingInv {cs : List Client} {ts : List Pc} {c i : Nat} {cl cl' : Client}
    {l l' : Pc} (h : ClientStep c cl l cl' l') (hi : SendingInv cl) (hR : Reachable T ⟨cs, ts⟩)
    (hcl : cs[c]? = some cl) (hl : ts[i]? = some l) : SendingInv cl' := by
  cases h with
  | take _ => exact hi
  | fill =>
    -- no send has this buffer, so no other message is lost
    obtain ⟨_, hsend, _⟩ := (senders_writer T).alone keepsBuffers_writer hR hcl hl (Pc.held_of_eq rfl)
    intro sd hsd
    rw [Client.fill, List.getElem?_set_ne (fun he => hsend sd hsd he.symm)]
    exact hi sd hsd
  | @send chMsg b m hb =>
    have hm := (senders_writer T).filled keepsBuffers_writer hR c cl hcl chMsg b
      (List.mem_of_getElem? hl)
    cases hb.symm.trans hm
    intro sd hsd
    rw [List.mem_append, List.mem_singleton] at hsd
    rcases hsd with hsd | rfl
    · exact hi sd hsd
    · exact ⟨hm, rfl⟩
  | handle _ => exact hi
  | put => exact hi
  | stop => exact hi

theorem ClientEvent.sendingInv {cl cl' : Client} (h : ClientEvent cl cl') (hi : SendingInv cl) :
    SendingInv cl' := by
  cases h with
  | transmit hs _ _ _ _ => exact fun sd hsd => hi sd (by rw [hs]; exact .tail _ hsd)
  | abort hs _ => exact fun sd hsd => hi sd (by rw [hs]; exact .tail _ hsd)
  | close => exact hi

theorem sendingInv {s : Conf (List Client) Pc} (h : Reachable T s) :
    ∀ (c : Nat) (cl : Client), s.shared[c]? = some cl → SendingInv cl := by
  refine client_rule (I := fun _ cl _ => SendingInv cl) ?_ ?_ ?_ ?_ ?_ ?_ h
  · intro cs ts datas _ _
    exact nofun
  · intro c cl ts hi
    exact hi
  · intro cs ts c cl cl' _ _ hi hev
    exact hev.sendingInv hi
  · intro c cl ts i d chMsg _ hi
    exact hi
  · intro cs ts i c cl cl' l l' hR hcl hl hi hst
    exact hst.sendingInv hi hR hcl hl
  · intro c cl ts i l l' _ _ _ hi
    exact hi

/-- **A buffer keeps its message** until its completion handler runs. -/
theorem contentInv {s : Conf (List Client) Pc} (h : Reachable T s) :
    ∀ (c : Nat) (cl : Client), s.shared[c]? = some cl → ContentInv T c cl s.threads := by
  intro c cl hcl
  refine ⟨length_buffers h c cl hcl, ?_, sendingInv h c cl hcl⟩
  exact (senders_writer T).filled keepsBuffers_writer h c cl hcl

/-! ## The wire -/

/-- A send transmits a prefix of its message's frame. -/
theorem take_frame (m : ChatMessage) {k : Nat} (hk : k ≤ m.length) :
    slice m.data.1 0 k = m.frame.take k := by
  rw [ChatMessage.frame, slice, slice, List.take_take, Nat.min_eq_left hk]

theorem ClientEvent.sentInv {c : Nat} {cl cl' : Client} {ts : List Pc} (h : ClientEvent cl cl')
    (hs : SentInv cl) (hi : ContentInv T c cl ts) : SentInv cl' := by
  cases h with
  | @transmit sd sds m k hsend hm hopen hk hlen =>
    obtain ⟨hbuf, hsd⟩ := hi.sending sd (by rw [hsend]; exact .head _)
    cases hm.symm.trans hbuf
    rw [hsd] at hlen
    refine ⟨?_, ?_, ?_⟩
    · intro _
      have hst := hs.started hopen
      rw [hsend] at hst
      rw [hst, List.map_append, List.append_assoc]
      rfl
    · -- the buffer still holds the message, so the bytes are those of its frame
      rw [List.map_append, List.flatten_append, ← hs.wire, take_frame _ hlen]
      simp
    · intro p hp
      rw [List.mem_append, List.mem_singleton] at hp
      rcases hp with hp | rfl
      · exact hs.len p hp
      · exact hlen
  | abort _ hclosed => exact ⟨fun hopen => absurd (hclosed.symm.trans hopen) nofun, hs.wire, hs.len⟩
  | close => exact ⟨nofun, hs.wire, hs.len⟩

theorem ClientStep.sentInv {c : Nat} {cl cl' : Client} {l l' : Pc} (h : ClientStep c cl l cl' l')
    (hs : SentInv cl) : SentInv cl' := by
  cases h with
  | take _ => exact ⟨hs.started, hs.wire, hs.len⟩
  | fill => exact ⟨hs.started, hs.wire, hs.len⟩
  | send _ =>
    refine ⟨?_, hs.wire, hs.len⟩
    intro hopen
    rw [hs.started hopen, List.map_append, List.append_assoc]
    rfl
  | handle _ => exact ⟨hs.started, hs.wire, hs.len⟩
  | put => exact ⟨hs.started, hs.wire, hs.len⟩
  | stop => exact ⟨nofun, hs.wire, hs.len⟩

theorem sentInv {s : Conf (List Client) Pc} (h : Reachable T s) :
    ∀ (c : Nat) (cl : Client), s.shared[c]? = some cl → SentInv cl := by
  refine client_rule (I := fun _ cl _ => SentInv cl) ?_ ?_ ?_ ?_ ?_ ?_ h
  · intro cs ts datas _ _
    exact ⟨fun _ => rfl, rfl, nofun⟩
  · intro c cl ts hs
    exact hs
  · intro cs ts c cl cl' hR hcl hs hev
    exact hev.sentInv hs (contentInv hR c cl hcl)
  · intro c cl ts i d chMsg _ hs
    exact hs
  · intro cs ts i c cl cl' l l' _ _ _ hs hst
    exact hst.sentInv hs
  · intro c cl ts i l l' _ _ _ hs
    exact hs

/-- What was performed is what was started first, also of a connection that is closed. -/
theorem performed_prefix {s : Conf (List Client) Pc} (h : Reachable T s) :
    ∀ (c : Nat) (cl : Client), s.shared[c]? = some cl →
      cl.performed.map Prod.fst <+: cl.started := by
  refine client_rule (I := fun _ cl _ => cl.performed.map Prod.fst <+: cl.started)
    ?_ ?_ ?_ ?_ ?_ ?_ h
  · intro cs ts datas _ _
    exact List.prefix_rfl
  · intro c cl ts hp
    exact hp
  · intro cs ts c cl cl' hR hcl hp hev
    cases hev with
    | @transmit sd sds m k hsend _ hopen _ _ =>
      -- only an open connection transmits, and the send at its head is the next one
      refine ⟨sds.map Send.chMsg, ?_⟩
      rw [(sentInv hR c cl hcl).started hopen, hsend, List.map_append, List.append_assoc]
      rfl
    | _ => exact hp
  · intro c cl ts i d chMsg _ hp
    exact hp
  · intro cs ts i c cl cl' l l' _ _ _ hp hst
    cases hst with
    | send _ => exact hp.trans (List.prefix_append _ _)
    | _ => exact hp
  · intro c cl ts i l l' _ _ _ hp
    exact hp

/-! ## Whole frames -/

/-- The wire has the frames of the messages in order, and the peer reads the
messages back. -/
def SentWhole (cl : Client) : Prop :=
  cl.wire = (cl.started.map fun m => m.1.frame).flatten ∧
  bodies headerLength maxBodyLength cl.wire = cl.started.map fun m => m.1.body

/-- The frames of messages with proper headers are the frames of their bodies. -/
theorem flatten_frame (ms : List Outgoing) :
    (ms.map fun m => m.1.frame).flatten = frames headerLength (ms.map fun m => m.1.body) := by
  rw [frames, List.map_map]
  exact congrArg List.flatten (List.map_congr_left fun m _ => ChatMessage.frame_of_header m.2)

theorem bodies_flatten_frame (ms : List Outgoing) :
    bodies headerLength maxBodyLength (ms.map fun m => m.1.frame).flatten
      = ms.map fun m => m.1.body := by
  have hshort : ∀ body ∈ ms.map fun m => m.1.body, body.length ≤ maxBodyLength := by
    intro body hb
    obtain ⟨m, _, rfl⟩ := List.mem_map.mp hb
    rw [ChatMessage.length_body]
    exact m.1.bodyLength_le
  have hb := bodies_frames (by decide : 0 < headerLength)
    (by decide : maxBodyLength < 256 ^ headerLength) [] hshort
  rw [List.append_nil] at hb
  rw [flatten_frame, hb]
  exact List.append_nil _

/-- Prefixes that come to the whole length are whole. -/
theorem whole_of_flatten : ∀ {ps : List (Outgoing × Nat)},
    (∀ p ∈ ps, p.2 ≤ p.1.1.length) →
      ((ps.map fun p => p.1.1.frame.take p.2).flatten.length
        = (ps.map fun p => p.1.1.frame).flatten.length) →
      ∀ p ∈ ps, p.2 = p.1.1.length
  | [], _, _ => nofun
  | q :: ps, hle, hlen => by
    have hq := hle q (List.mem_cons_self ..)
    have hps : ∀ p ∈ ps, p.2 ≤ p.1.1.length := fun p hp => hle p (List.mem_cons_of_mem _ hp)
    have hrest : (ps.map fun p => p.1.1.frame.take p.2).flatten.length
        ≤ (ps.map fun p => p.1.1.frame).flatten.length := by
      rw [List.length_flatten, List.length_flatten, List.map_map, List.map_map]
      refine List.sum_le_sum fun p _ => ?_
      exact List.length_take_le' _ _
    rw [List.map_cons, List.map_cons, List.flatten_cons, List.flatten_cons, List.length_append,
      List.length_append, List.length_take, ChatMessage.length_frame, Nat.min_eq_left hq] at hlen
    intro p hp
    rcases List.mem_cons.mp hp with rfl | hp
    · omega
    · exact whole_of_flatten hps (by omega) p hp

/-- **Frames leave the server whole exactly if every send transmits its whole
buffer.** -/
theorem sentWhole_iff {s : Conf (List Client) Pc} (h : Reachable T s) {c : Nat} {cl : Client}
    (hcl : s.shared[c]? = some cl) (hopen : cl.closed = false) (hdone : cl.sending = []) :
    SentWhole cl ↔ ∀ p ∈ cl.performed, p.2 = p.1.1.length := by
  have hs := sentInv h c cl hcl
  have hst : cl.started = cl.performed.map Prod.fst := by
    rw [hs.started hopen, hdone]
    exact List.append_nil _
  have hframes : (cl.started.map fun m => m.1.frame) = cl.performed.map fun p => p.1.1.frame := by
    rw [hst, List.map_map]
    rfl
  constructor
  -- no prefix is longer than its frame, and together they have the length of all frames
  · rintro ⟨hwire, _⟩
    refine whole_of_flatten hs.len ?_
    rw [← hs.wire, hwire, hframes]
  · intro hwhole
    have hwire : cl.wire = (cl.started.map fun m => m.1.frame).flatten := by
      rw [hs.wire, hframes]
      refine congrArg List.flatten (List.map_congr_left fun p hp => ?_)
      rw [hwhole p hp, List.take_of_length_le (Nat.le_of_eq (ChatMessage.length_frame _))]
    exact ⟨hwire, by rw [hwire, bodies_flatten_frame]⟩

/-- One login is answered, by a send that transmits `k` bytes. -/
def oneLoginMoves (k : Nat) : List (Move Event Choice) :=
  .env (.accept [zeroed]) :: answerLogin 0 0 ++
    [.env (.transmit 0 k), .run 0 (.handle 0 0), .run 0 .go]

def oneLogin (k : Nat) : Conf (List Client) Pc :=
  (writer 1).after (fun _ _ => true) (start 1) (oneLoginMoves k)

/-- The client of `oneLogin`. -/
def oneLoginClient (k : Nat) : Client := ((oneLogin k).shared[0]?).getD (Client.new [])

theorem reachable_oneLogin {k : Nat}
    (h : ((writer 1).run (fun _ _ => true) (start 1) (oneLoginMoves k)).isSome = true) :
    Reachable 1 (oneLogin k) :=
  Program.Reach.mono (fun _ _ _ => trivial) (Program.reach_after h)

/-- The whole answer to a login. -/
theorem sentWhole_oneLogin :
    SentWhole (oneLoginClient 16) ↔ ∀ p ∈ (oneLoginClient 16).performed, p.2 = p.1.1.length :=
  sentWhole_iff (c := 0) (reachable_oneLogin (k := 16) (by decide +kernel)) (by decide +kernel)
    (by decide +kernel) (by decide +kernel)

/-- **Frames do not always leave the server whole**: one byte of the answer to a
login is sent, and the rest never is. -/
theorem sentWhole_fails : ¬∀ T s, Reachable T s → ∀ (c : Nat) (cl : Client),
    s.shared[c]? = some cl → cl.closed = false → cl.sending = [] → SentWhole cl := by
  intro h
  have hwhole := h 1 (oneLogin 1) (reachable_oneLogin (k := 1) (by decide +kernel)) 0 (oneLoginClient 1)
    (by decide +kernel) (by decide +kernel) (by decide +kernel)
  exact absurd hwhole.1 (by decide +kernel)

end CiaServer.Net.Writer
