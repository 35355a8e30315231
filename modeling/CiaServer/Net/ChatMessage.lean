import CiaServer.Net.CiaMessage
import CiaServer.Wire.Frames

/-!
# `chat_message` (`chat_message.hpp`)

A frame buffer: 4 bytes of header and 512 of body, `m_data`, and the length of
the body in it. A `ChatMessage` carries what every operation keeps: `m_data`
has its 516 bytes and `m_body_length` is at most 512.

Mirroring notes:
- `m_data` is uninitialised in a new message; its content is an argument.
- A write that does not fit into `m_data` is undefined behaviour: `none`.
- The header is written and read through an `int` view of `m_data` with `htonl`
  and `ntohl`, on a machine of either byte order.
- `m_procbuffer_msg` only reaches the log and is left out.
-/

namespace CiaServer.Net

open Wire

/-- `chat_message::header_length` -/
def headerLength : Nat := 4
/-- `chat_message::max_body_length` -/
def maxBodyLength : Nat := 512

/-- The 516 bytes of `m_data`. -/
abbrev Buffer := { data : Bytes // data.length = headerLength + maxBodyLength }

/-- `memcpy(m_data + off, bs)`, if that stays inside `m_data`. -/
def Buffer.write (b : Buffer) (off : Nat) (bs : Bytes) : Option Buffer :=
  if h : off + bs.length ≤ headerLength + maxBodyLength then
    some ⟨overwrite b.1 off bs, (length_overwrite (by rw [b.2]; exact h)).trans b.2⟩
  else none

/-- An `m_data` that happens to be all zeros. -/
def zeroed : Buffer := ⟨List.replicate (headerLength + maxBodyLength) 0, List.length_replicate⟩

/-- `chat_message`. -/
structure ChatMessage where
  data : Buffer
  bodyLength : Nat
  bodyLength_le : bodyLength ≤ maxBodyLength
  deriving DecidableEq

namespace ChatMessage

/-- `chat_message()`. -/
def new (data : Buffer) : ChatMessage := { data, bodyLength := 0, bodyLength_le := Nat.zero_le _ }

/-- `length()`. -/
def length (m : ChatMessage) : Nat := headerLength + m.bodyLength

/-- The header bytes of `m_data`. -/
def header (m : ChatMessage) : Bytes := slice m.data.1 0 headerLength

/-- `body()[0 .. body_length())`. -/
def body (m : ChatMessage) : Bytes := slice m.data.1 headerLength m.bodyLength

/-- `data()[0 .. length())`, the bytes of the frame. -/
def frame (m : ChatMessage) : Bytes := slice m.data.1 0 m.length

/-- What `body_length(new_length)` sets `m_body_length` to. -/
def clampBodyLength (newLength : Nat) : Nat :=
  if maxBodyLength < newLength then maxBodyLength else newLength

theorem clampBodyLength_le (n : Nat) : clampBodyLength n ≤ maxBodyLength := by
  unfold clampBodyLength
  split <;> omega

/-- `decode_header`. -/
def decodeHeader (o : ByteOrder) (m : ChatMessage) : Bool × ChatMessage :=
  let n := networkToHost o (load o m.header)
  if h : n ≤ maxBodyLength then (true, { m with bodyLength := n, bodyLength_le := h })
  else (false, { m with bodyLength := 0, bodyLength_le := Nat.zero_le _ })

/-- `encode_header`. -/
def encodeHeader (o : ByteOrder) (m : ChatMessage) : Option ChatMessage :=
  (m.data.write 0 (store o (hostToNetwork o m.bodyLength))).map fun data => { m with data }

/-- `chat_message(msg)`. The body length is clamped, `SerializeToArray` is told
the whole `ByteSize`. -/
def ofMessage (P : Protobuf) (o : ByteOrder) (data : Buffer) (msg : CiaMessage) :
    Option ChatMessage :=
  match data.write headerLength (P.serialize msg) with
  | none => none
  | some data' =>
    encodeHeader o
      { data := data'
        bodyLength := clampBodyLength msg.byteSize
        bodyLength_le := clampBodyLength_le _ }

/-! ## Reading what was written -/

theorem length_header (m : ChatMessage) : m.header.length = headerLength := by
  rw [header, slice, List.length_take, List.length_drop, m.data.2]
  decide

theorem length_body (m : ChatMessage) : m.body.length = m.bodyLength := by
  rw [body, slice, List.length_take, List.length_drop, m.data.2]
  have := m.bodyLength_le
  omega

/-- `decode_header` reads the header as a big-endian number. -/
theorem decodeHeader_eq (o : ByteOrder) (m : ChatMessage) :
    networkToHost o (load o m.header) = readBE m.header :=
  networkToHost_load o (length_header m)

theorem write_eq_some {b b' : Buffer} {off : Nat} {bs : Bytes} (h : b.write off bs = some b') :
    off + bs.length ≤ b.1.length ∧ b'.1 = overwrite b.1 off bs := by
  unfold Buffer.write at h
  split at h
  · next hle =>
    cases h
    exact ⟨by rw [b.2]; exact hle, rfl⟩
  · cases h

theorem write_eq_none_iff {b : Buffer} {off : Nat} {bs : Bytes} :
    b.write off bs = none ↔ headerLength + maxBodyLength < off + bs.length := by
  unfold Buffer.write
  split
  · next h => exact ⟨nofun, fun hlt => absurd h (by omega)⟩
  · next h => exact ⟨fun _ => by omega, fun _ => rfl⟩

/-- The header of the whole frame and its body, side by side. -/
theorem frame_eq (m : ChatMessage) : m.frame = m.header ++ m.body := by
  rw [frame, length, header, body, slice, slice, slice, List.drop_zero, List.take_add]

theorem length_frame (m : ChatMessage) : m.frame.length = m.length := by
  rw [frame_eq, List.length_append, length_header, length_body, length]

/-- What `encode_header` writes: the length, big-endian, and nothing else. -/
theorem encodeHeader_spec (o : ByteOrder) (m : ChatMessage) :
    ∃ m', m.encodeHeader o = some m' ∧ m'.bodyLength = m.bodyLength ∧
      m'.header = be headerLength m.bodyLength ∧ m'.body = m.body := by
  have hs : store o (hostToNetwork o m.bodyLength) = be 4 m.bodyLength := store_hostToNetwork o _
  have hlen : (be 4 m.bodyLength).length = 4 := length_be 4 _
  cases hw : m.data.write 0 (store o (hostToNetwork o m.bodyLength)) with
  | none =>
    rw [write_eq_none_iff, hs, hlen] at hw
    exact absurd hw (by decide)
  | some data =>
    obtain ⟨hle, hdata⟩ := write_eq_some hw
    rw [hs] at hle hdata
    refine ⟨{ m with data }, by rw [encodeHeader, hw]; rfl, rfl, ?_, ?_⟩
    · show slice data.1 0 4 = be 4 m.bodyLength
      have h := slice_overwrite hle
      rwa [hlen, ← hdata] at h
    · show slice data.1 headerLength m.bodyLength = slice m.data.1 headerLength m.bodyLength
      rw [hdata]
      exact slice_overwrite_after hle (by rw [hlen]; decide)

/-- The constructor writes outside `m_data` exactly when the message is larger
than the body. -/
theorem ofMessage_eq_none_iff {P : Protobuf} (hP : P.Lawful) (o : ByteOrder) (data : Buffer)
    {msg : CiaMessage} (hsize : msg.byteSize < 2 ^ 31) :
    ofMessage P o data msg = none ↔ maxBodyLength < msg.byteSize := by
  have hlen := hP.length_serialize msg hsize
  unfold ofMessage
  cases hw : data.write headerLength (P.serialize msg) with
  | none =>
    rw [write_eq_none_iff, hlen] at hw
    exact ⟨fun _ => by omega, fun _ => rfl⟩
  | some data' =>
    -- once the body is in place, the header always fits
    obtain ⟨hle, _⟩ := write_eq_some hw
    rw [hlen, data.2] at hle
    obtain ⟨m', hm', _⟩ := encodeHeader_spec o
      { data := data', bodyLength := clampBodyLength msg.byteSize
        bodyLength_le := clampBodyLength_le _ }
    simp only [hm', reduceCtorEq, false_iff]
    omega

/-- What the constructor builds of a message whose serialisation has the length
that `ByteSize` says. -/
theorem ofMessage_of_length {P : Protobuf} (o : ByteOrder) (data : Buffer) {msg : CiaMessage}
    (hlen : (P.serialize msg).length = msg.byteSize) (hsize : msg.byteSize ≤ maxBodyLength) :
    ∃ m, ofMessage P o data msg = some m ∧ m.bodyLength = msg.byteSize ∧
      m.header = be headerLength msg.byteSize ∧ m.body = P.serialize msg := by
  unfold ofMessage
  cases hw : data.write headerLength (P.serialize msg) with
  | none =>
    rw [write_eq_none_iff, hlen] at hw
    omega
  | some data' =>
    obtain ⟨hle, hdata⟩ := write_eq_some hw
    -- the clamp does nothing to a message that fits
    have hclamp : clampBodyLength msg.byteSize = msg.byteSize := if_neg (by omega)
    obtain ⟨m', hm', hn, hh, hb⟩ := encodeHeader_spec o
      { data := data', bodyLength := clampBodyLength msg.byteSize
        bodyLength_le := clampBodyLength_le _ }
    refine ⟨m', hm', hn.trans hclamp, ?_, hb.trans ?_⟩
    · rw [hh]
      exact congrArg _ hclamp
    · show slice data'.1 headerLength (clampBodyLength msg.byteSize) = P.serialize msg
      rw [hdata, hclamp, ← hlen, slice_overwrite hle]

/-- **What the constructor builds**, of a message that fits: its frame. -/
theorem ofMessage_spec {P : Protobuf} (hP : P.Lawful) (o : ByteOrder) (data : Buffer)
    {msg : CiaMessage} (hsize : msg.byteSize ≤ maxBodyLength) :
    ∃ m, ofMessage P o data msg = some m ∧ m.bodyLength = msg.byteSize ∧
      m.header = be headerLength msg.byteSize ∧ m.body = P.serialize msg := by
  have hsize' : msg.byteSize < 2 ^ 31 := by
    unfold maxBodyLength at hsize
    omega
  exact ofMessage_of_length o data (hP.length_serialize msg hsize') hsize

/-- A message whose header tells its length is a frame of its body. -/
theorem frame_of_header {m : ChatMessage} (h : m.header = be headerLength m.bodyLength) :
    m.frame = Wire.frame headerLength m.body := by
  rw [frame_eq, Wire.frame, length_body, h]

end ChatMessage

/-- What a peer makes of one frame. -/
def decodeFrame (P : Protobuf) (bs : Bytes) : Option CiaMessage :=
  match next? headerLength maxBodyLength bs with
  | some (body, []) => P.parse body
  | _ => none

theorem decodeFrame_frame (P : Protobuf) {body : Bytes} (h : body.length ≤ maxBodyLength) :
    decodeFrame P (frame headerLength body) = P.parse body := by
  have hn := next?_frame h (by decide : maxBodyLength < 256 ^ headerLength) []
  rw [List.append_nil] at hn
  simp only [decodeFrame, hn]

end CiaServer.Net
