import CiaServer.Net.ReaderInv

/-!
# Reading back what was written

One end frames its messages with `chat_message(msg)`, each in a buffer of its
own, and sends the frames one behind the other; the other end reads the stream
with one buffer that it uses again and again. `decode_encode`: it gets exactly
the messages back, however the bytes were cut up on the way, and a frame it
accepts is the frame of the message it carries.

The two machines may differ in their byte order. Of `protobuf` only what
concerns the messages at hand is assumed (`Carried`).
-/

namespace CiaServer.Net.Reader

open Wire Interleave

/-- `ByteSize` is the length of the message's serialisation, and parsing the
serialisation gives the message. -/
structure Carried (P : Protobuf) (msg : CiaMessage) : Prop where
  length : (P.serialize msg).length = msg.byteSize
  parse : P.parse (P.serialize msg) = some msg

/-- What is lawful carries every initialized message without unknown fields. -/
theorem Carried.of_lawful {P : Protobuf} (hP : P.Lawful) {msg : CiaMessage}
    (hsize : msg.byteSize < 2 ^ 31) (hinit : msg.isInitialized = true)
    (hu : msg.unknownFields = []) : Carried P msg :=
  ⟨hP.length_serialize msg hsize, hP.parse_serialize msg hsize hinit hu⟩

/-- `ch` is `chat_message(msg)`, built in some buffer. -/
def Encoded (P : Protobuf) (o : ByteOrder) (msg : CiaMessage) (ch : ChatMessage) : Prop :=
  ∃ data, ChatMessage.ofMessage P o data msg = some ch

/-- `data()[0 .. length())` of some frames, one behind the other. -/
def streamOf (chs : List ChatMessage) : Bytes := (chs.map ChatMessage.frame).flatten

/-- The bytes the reader took for the frame with body `body`, behind the frames
of the bodies `before`. -/
def frameTaken (s : Session) (before : List Bytes) (body : Bytes) : Bytes :=
  slice s.taken (frames headerLength before).length (headerLength + body.length)

/-- The session reader turns the stream of the frames `chs` into the messages. -/
structure DecodesTo (P : Protobuf) (o : ByteOrder) (data : Buffer) (chs : List ChatMessage)
    (msgs : List CiaMessage) : Prop where
  /-- The bytes arrive, and the server comes to rest. -/
  reached : ∃ s, Reachable P o data s ∧ s.shared.stream = streamOf chs ∧
    s.shared.stoppedElsewhere = false ∧ Quiet P o s
  /-- At rest, the messages are what was handed out, and no byte is left. -/
  decoded : ∀ s, Reachable P o data s → s.shared.stream = streamOf chs →
    s.shared.stoppedElsewhere = false → Quiet P o s →
    (handedOut s.threads).map P.parse = msgs.map some ∧ s.shared.unread = []

variable {P : Protobuf} {o o' : ByteOrder}

/-! ## One frame -/

/-- The frame of a message that fits is its serialisation behind its length. -/
theorem frame_of_encoded {msg : CiaMessage} {ch : ChatMessage}
    (hlen : (P.serialize msg).length = msg.byteSize) (hsize : msg.byteSize ≤ maxBodyLength)
    (h : Encoded P o msg ch) : ch.frame = Wire.frame headerLength (P.serialize msg) := by
  obtain ⟨data, hch⟩ := h
  obtain ⟨ch', hch', hn, hh, hb⟩ := ChatMessage.ofMessage_of_length o data hlen hsize
  cases hch.symm.trans hch'
  rw [ChatMessage.frame_of_header (by rw [hh, hn]), hb]

/-- The stream of some messages' frames. -/
theorem streamOf_encoded {msgs : List CiaMessage} {chs : List ChatMessage}
    (hmsgs : ∀ msg ∈ msgs, Carried P msg ∧ msg.byteSize ≤ maxBodyLength)
    (h : List.Forall₂ (Encoded P o) msgs chs) :
    streamOf chs = frames headerLength (msgs.map P.serialize) := by
  induction h with
  | nil => rfl
  | @cons msg ch msgs chs hch _ ih =>
    obtain ⟨hc, hsize⟩ := hmsgs msg (List.mem_cons_self ..)
    have htail := ih fun m hm => hmsgs m (List.mem_cons_of_mem _ hm)
    rw [streamOf] at htail
    rw [streamOf, List.map_cons, List.flatten_cons, htail, frame_of_encoded hc.length hsize hch]
    rfl

theorem short_serialize {msgs : List CiaMessage}
    (hmsgs : ∀ msg ∈ msgs, Carried P msg ∧ msg.byteSize ≤ maxBodyLength) :
    ∀ body ∈ msgs.map P.serialize, body.length ≤ maxBodyLength := by
  intro body hb
  obtain ⟨msg, hm, rfl⟩ := List.mem_map.mp hb
  obtain ⟨hc, hsize⟩ := hmsgs msg hm
  rw [hc.length]
  exact hsize

/-! ## The whole stream -/

/-- The server's own moves neither make nor lose bytes. -/
theorem stream_step {s s' : Conf Session Handler} {m : Move Event Unit} (hm : internal m = true)
    (hst : (reader P o).step s m = some s') :
    s'.shared.stream = s.shared.stream ∧
      s'.shared.stoppedElsewhere = s.shared.stoppedElsewhere := by
  rcases Program.step_cases hst with
    ⟨e, sh, new, rfl, he, rfl⟩ | ⟨i, r, l, sh, l', rfl, hl, he, rfl⟩
  · cases env_step (n := s.threads.length) he with
    | arrive => cases hm
    | finish => cases hm
    | stopElsewhere => cases hm
    | @deliver r k _ _ _ _ =>
      unfold Session.deliver
      split
      · exact ⟨rfl, rfl⟩
      · refine ⟨?_, rfl⟩
        rw [Session.stream, Session.stream, List.append_assoc, List.take_append_drop]
    | complete => exact ⟨rfl, rfl⟩
    | fail => exact ⟨rfl, rfl⟩
  · have he' : Reader.exec P o s.shared i l r = some (sh, l') := he
    cases l with
    | onHeader ec => cases ec <;> cases he' <;> exact ⟨rfl, rfl⟩
    | onBody ec => cases ec <;> cases he' <;> exact ⟨rfl, rfl⟩
    | readBody => cases he'; exact ⟨rfl, rfl⟩
    | readHeader chMsg => cases he'; exact ⟨rfl, rfl⟩
    | deal chMsg => cases he'; exact ⟨rfl, rfl⟩
    | dealt body request => cases he'
    | stop => cases he'; exact ⟨rfl, rfl⟩
    | done => cases he'

/-- Whatever bytes arrive, the reader comes to rest behind them. -/
theorem reached_rest (data : Buffer) (bs : Bytes) : ∃ s, Reachable P o data s ∧
    s.shared.stream = bs ∧ s.shared.stoppedElsewhere = false ∧ Quiet P o s := by
  let s₁ : Conf Session Handler :=
    { shared := { (start data).shared with unread := bs }, threads := [] }
  have h₁ : Reachable P o data s₁ := Relation.ReflTransGen.single ⟨.env (.arrive bs), trivial, rfl⟩
  obtain ⟨s, hs, hq⟩ := exists_quiet (P := P) (o := o) (inv_of_reachable h₁)
  have hkeep : s.shared.stream = bs ∧ s.shared.stoppedElsewhere = false := by
    clear hq
    induction hs with
    | refl => exact ⟨rfl, rfl⟩
    | tail _ hst ih =>
      obtain ⟨m, hm, hst⟩ := hst
      obtain ⟨hstream, helse⟩ := stream_step hm hst
      exact ⟨hstream.trans ih.1, helse.trans ih.2⟩
  exact ⟨s, h₁.trans (hs.mono fun _ _ _ => trivial), hkeep.1, hkeep.2, hq⟩

/-- Once all frames of a stream of frames are handed out, no byte is left. -/
theorem unread_eq_nil {data : Buffer} {s : Conf Session Handler} (h : Reachable P o data s)
    (hs : s.shared.stream = frames headerLength (handedOut s.threads)) :
    s.shared.unread = [] := by
  obtain ⟨cur, htaken, _⟩ := (inv_of_reachable h).phase
  rw [Session.stream, htaken, List.append_assoc] at hs
  exact (List.append_eq_nil_iff.mp (List.append_right_eq_self.mp hs)).2

/-- A stream of frames is decoded. -/
theorem decodesTo (data : Buffer) {msgs : List CiaMessage} {chs : List ChatMessage}
    (hmsgs : ∀ msg ∈ msgs, Carried P msg ∧ msg.byteSize ≤ maxBodyLength)
    (h : List.Forall₂ (Encoded P o) msgs chs) : DecodesTo P o' data chs msgs := by
  refine ⟨reached_rest data _, ?_⟩
  intro s hR hs helse hq
  have hframes := bodies_frames (show 0 < headerLength by decide)
    (show maxBodyLength < 256 ^ headerLength by decide) [] (short_serialize hmsgs)
  rw [List.append_nil, ← streamOf_encoded hmsgs h] at hframes
  have hall : handedOut s.threads = msgs.map P.serialize := by
    rw [handedOut_of_quiet hR helse hq, hs, hframes]
    exact List.append_nil _
  constructor
  · rw [hall, List.map_map]
    exact List.map_congr_left fun msg hm => (hmsgs msg hm).1.parse
  · refine unread_eq_nil hR ?_
    rw [hs, hall]
    exact streamOf_encoded hmsgs h

/-! ## The frames that are accepted -/

/-- What was taken for a body is its frame. -/
theorem frameTaken_eq {data : Buffer} {s : Conf Session Handler} (h : Reachable P o data s)
    {before after : List Bytes} {body : Bytes}
    (hs : handedOut s.threads = before ++ body :: after) :
    frameTaken s.shared before body = Wire.frame headerLength body := by
  obtain ⟨cur, htaken, _⟩ := (inv_of_reachable h).phase
  have hframes : frames headerLength (before ++ body :: after)
      = frames headerLength before ++ (Wire.frame headerLength body ++ frames headerLength after) := by
    simp [frames]
  rw [frameTaken, slice, htaken, hs, hframes, List.append_assoc, List.drop_left,
    List.append_assoc, List.take_left' (length_frame body)]

/-- A frame that is accepted with the serialisation of a message as its body is
the frame of the message. -/
theorem frameTaken_encoded {data : Buffer} {s : Conf Session Handler} (h : Reachable P o' data s)
    {before after : List Bytes} {msg : CiaMessage}
    (hlen : (P.serialize msg).length = msg.byteSize)
    (hs : handedOut s.threads = before ++ P.serialize msg :: after) (buffer : Buffer) :
    ∃ ch, ChatMessage.ofMessage P o buffer msg = some ch ∧
      frameTaken s.shared before (P.serialize msg) = ch.frame := by
  have hshort := (inv_of_reachable h).short (P.serialize msg)
    (by rw [hs]; exact List.mem_append_right _ (List.mem_cons_self ..))
  obtain ⟨ch, hch, _⟩ := ChatMessage.ofMessage_of_length (P := P) o buffer hlen (hlen ▸ hshort)
  refine ⟨ch, hch, ?_⟩
  rw [frameTaken_eq h hs, frame_of_encoded hlen (hlen ▸ hshort) ⟨buffer, hch⟩]

/-- **Decoding undoes encoding**, over whole streams: messages of at most 512
bytes have their frames, the reader gets them back from the frames with nothing
left over, and it accepts the serialisation of a message only in the message's
own frame. -/
theorem decode_encode (P : Protobuf) (o o' : ByteOrder) :
    (∀ msgs : List CiaMessage,
      (∀ msg ∈ msgs, Carried P msg ∧ msg.byteSize ≤ maxBodyLength) →
      (∀ msg ∈ msgs, ∀ data, ChatMessage.ofMessage P o data msg ≠ none) ∧
      ∀ chs data, List.Forall₂ (Encoded P o) msgs chs → DecodesTo P o' data chs msgs) ∧
    ∀ (data buffer : Buffer) (s : Conf Session Handler) (before after : List Bytes)
      (msg : CiaMessage), Reachable P o' data s →
      handedOut s.threads = before ++ P.serialize msg :: after → Carried P msg →
      ∃ ch, ChatMessage.ofMessage P o buffer msg = some ch ∧
        frameTaken s.shared before (P.serialize msg) = ch.frame := by
  refine ⟨fun msgs hmsgs => ⟨?_, fun chs data h => decodesTo data hmsgs h⟩, ?_⟩
  · intro msg hm data hnone
    obtain ⟨hc, hsize⟩ := hmsgs msg hm
    obtain ⟨ch, hch, _⟩ := ChatMessage.ofMessage_of_length o data hc.length hsize
    exact absurd (hch.symm.trans hnone) nofun
  · intro data buffer s before after msg hR hs hc
    exact frameTaken_encoded hR hc.length hs buffer

/-- A login and a heartbeat, from a little-endian peer to a big-endian server. -/
theorem decode_encode_two : ∀ chs, List.Forall₂ (Encoded knownFields .little)
    [CiaMessage.empty.set .type ciaLoginRequest, CiaMessage.empty.set .type ciaHeartResponse] chs →
    DecodesTo knownFields .big zeroed chs
      [CiaMessage.empty.set .type ciaLoginRequest, CiaMessage.empty.set .type ciaHeartResponse] := by
  intro chs
  refine ((decode_encode knownFields .little .big).1 _ ?_).2 chs zeroed
  intro msg hm
  simp only [List.mem_cons, List.not_mem_nil, or_false] at hm
  rcases hm with rfl | rfl
  · exact ⟨.of_lawful knownFields_lawful (by decide) rfl rfl, by decide⟩
  · exact ⟨.of_lawful knownFields_lawful (by decide) rfl rfl, by decide⟩

end CiaServer.Net.Reader
