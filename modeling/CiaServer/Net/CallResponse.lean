import CiaServer.Net.ChatMessage

/-!
# Every accepted call request can be answered

A call request comes in a body of at most 512 bytes, and its response repeats
the `transId` and adds a status. The response has `12` bytes more than the
`transId` field itself, so a `transId` of 498 bytes or more — which still fits
into a request — makes a response of more than 512 bytes. `chat_message(msg)`
clamps its body length to 512 and then lets `SerializeToArray` write the whole
message: outside `m_data` (`callResponse_fails`).

`callResponse_encodes_iff`: up to 497 bytes the response is framed whole and
read back as it was meant, and from 498 bytes on it never is.
-/

namespace CiaServer.Net

open Wire

/-- The response to a call, as `cti_callout`, `cti_callout_again` and
`cti_hangUp` build it. -/
def callResponse (transId status : Bytes) : CiaMessage :=
  ((CiaMessage.empty.set .type ciaCallResponse).set .transId transId).set .status status

/-- `chat_message(msg)` stays inside `m_data`, its header is `ByteSize`, and a
peer reads type, `transId` and status back from its frame. -/
def Encodes (P : Protobuf) (o : ByteOrder) (data : Buffer) (msg : CiaMessage) : Prop :=
  ∃ m, ChatMessage.ofMessage P o data msg = some m ∧ readBE m.header = msg.byteSize ∧
    ∃ msg', decodeFrame P m.frame = some msg' ∧
      ∀ f ∈ [Field.type, .transId, .status], msg'.get f = msg.get f

theorem byteSize_callResponse {transId status : Bytes} (hs : status.length = 2) :
    (callResponse transId status).byteSize
      = 13 + (varintSize32 transId.length + transId.length) := by
  have hstatus : Field.status.tagSize + CiaMessage.stringSize status = 4 := by
    rw [CiaMessage.stringSize, hs]
    rfl
  have htype : Field.type.tagSize + CiaMessage.stringSize ciaCallResponse = 8 := rfl
  rw [callResponse, CiaMessage.byteSize_set rfl, CiaMessage.byteSize_set rfl,
    CiaMessage.byteSize_set rfl, CiaMessage.byteSize_empty, hstatus, htype, CiaMessage.stringSize,
    show Field.transId.tagSize = 1 from rfl]
  omega

/-- The status codes of a call are two digits. -/
theorem length_status {status : Bytes}
    (h : status = ciaCallSuccess ∨ status = ciaCallFail ∨ status = ciaCallTimeout) :
    status.length = 2 := by
  rcases h with rfl | rfl | rfl <;> rfl

/-- The size that decides: 497 bytes of `transId` fit, 498 do not. -/
theorem byteSize_callResponse_le_iff {transId status : Bytes} (hs : status.length = 2)
    (ht : transId.length ≤ maxBodyLength) :
    (callResponse transId status).byteSize ≤ maxBodyLength ↔ transId.length ≤ 497 := by
  rw [byteSize_callResponse hs]
  unfold maxBodyLength at ht ⊢
  unfold varintSize32
  split
  · omega
  · rw [if_pos (by omega)]
    omega

/-- A message that fits is framed whole and read back. -/
theorem encodes_of_le {P : Protobuf} (hP : P.Lawful) (o : ByteOrder) (data : Buffer)
    {msg : CiaMessage} (hsize : msg.byteSize ≤ maxBodyLength) (hinit : msg.isInitialized = true)
    (hu : msg.unknownFields = []) : Encodes P o data msg := by
  obtain ⟨m, hm, hn, hh, hb⟩ := ChatMessage.ofMessage_spec hP o data hsize
  have hlt : msg.byteSize < 2 ^ 31 := by
    unfold maxBodyLength at hsize
    omega
  refine ⟨m, hm, ?_, msg, ?_, fun _ _ => rfl⟩
  · have h256 : msg.byteSize < 256 ^ headerLength := by
      unfold maxBodyLength at hsize
      unfold headerLength
      omega
    rw [hh, readBE_be h256]
  · have hlen := hP.length_serialize msg hlt
    rw [ChatMessage.frame_of_header (by rw [hh, hn]), hb, decodeFrame_frame P (by omega),
      hP.parse_serialize msg hlt hinit hu]

/-- **The response to an accepted call request can be sent exactly when the
`transId` has at most 497 bytes.** -/
theorem callResponse_encodes_iff {P : Protobuf} (hP : P.Lawful) (o : ByteOrder) (data : Buffer)
    {body : Bytes} {request : CiaMessage} (hbody : body.length ≤ maxBodyLength)
    (hparse : P.parse body = some request) (_htype : request.value .type = ciaCallRequest)
    {status : Bytes}
    (hstatus : status = ciaCallSuccess ∨ status = ciaCallFail ∨ status = ciaCallTimeout) :
    Encodes P o data (callResponse (request.value .transId) status)
      ↔ (request.value .transId).length ≤ 497 := by
  have hs := length_status hstatus
  have ht : (request.value .transId).length ≤ maxBodyLength :=
    Nat.le_trans (hP.length_parse body request hparse .transId) hbody
  rw [← byteSize_callResponse_le_iff hs ht]
  refine ⟨fun ⟨m, hm, _⟩ => ?_, fun hsize => encodes_of_le hP o data hsize rfl rfl⟩
  have hlt : (callResponse (request.value .transId) status).byteSize < 2 ^ 31 := by
    rw [byteSize_callResponse hs]
    unfold maxBodyLength at ht
    unfold varintSize32
    split
    · omega
    · rw [if_pos (by omega)]
      omega
  -- a larger response is written outside `m_data`
  by_contra hgt
  rw [(ChatMessage.ofMessage_eq_none_iff hP o data hlt).mpr (by omega)] at hm
  cases hm

/-- A call request with a `transId` and nothing else. -/
def callRequest (transId : Bytes) : CiaMessage :=
  (CiaMessage.empty.set .type ciaCallRequest).set .transId transId

theorem byteSize_callRequest (transId : Bytes) :
    (callRequest transId).byteSize = 9 + (varintSize32 transId.length + transId.length) := by
  have htype : Field.type.tagSize + CiaMessage.stringSize ciaCallRequest = 8 := rfl
  rw [callRequest, CiaMessage.byteSize_set rfl, CiaMessage.byteSize_set rfl,
    CiaMessage.byteSize_empty, htype, CiaMessage.stringSize,
    show Field.transId.tagSize = 1 from rfl]
  omega

/-- A request of known size is what `knownFields` makes of its serialisation. -/
theorem parse_callRequest {transId : Bytes} (h : (callRequest transId).byteSize < 2 ^ 31) :
    knownFields.parse (callRequest transId).serialize = some (callRequest transId) :=
  CiaMessage.parse_serialize _ h rfl rfl

/-- A request with a `transId` of three bytes is answered. -/
theorem callResponse_short :
    Encodes knownFields .little zeroed (callResponse ((callRequest [1, 2, 3]).value .transId)
        ciaCallSuccess) ↔ ((callRequest [1, 2, 3]).value .transId).length ≤ 497 :=
  callResponse_encodes_iff knownFields_lawful .little zeroed
    (show (callRequest [1, 2, 3]).serialize.length ≤ maxBodyLength by decide)
    (parse_callRequest (by decide)) rfl (Or.inl rfl)

/-- A `transId` of 498 bytes. -/
def longTransId : Bytes := List.replicate 498 0x31

theorem length_longTransId : longTransId.length = 498 := List.length_replicate

/-- **The code does not answer every call request it accepts**: the response to
a request of 509 bytes has 513. -/
theorem callResponse_fails :
    ¬∀ (P : Protobuf), P.Lawful → ∀ (o : ByteOrder) (data : Buffer) (body : Bytes)
      (request : CiaMessage), body.length ≤ maxBodyLength → P.parse body = some request →
      request.value .type = ciaCallRequest → ∀ status, (status = ciaCallSuccess ∨
        status = ciaCallFail ∨ status = ciaCallTimeout) →
      Encodes P o data (callResponse (request.value .transId) status) := by
  intro h
  have hsize : (callRequest longTransId).byteSize = 509 := by
    rw [byteSize_callRequest, length_longTransId]
    rfl
  have hlt : (callRequest longTransId).byteSize < 2 ^ 31 := by
    rw [hsize]
    decide
  have hresp : (callResponse longTransId ciaCallSuccess).byteSize = 513 := by
    rw [byteSize_callResponse rfl, length_longTransId]
    rfl
  obtain ⟨m, hm, _⟩ := h knownFields knownFields_lawful .little zeroed
    (callRequest longTransId).serialize (callRequest longTransId)
    (by rw [CiaMessage.length_serialize hlt, hsize]; decide) (parse_callRequest hlt) rfl
    ciaCallSuccess (Or.inl rfl)
  have hnone : ChatMessage.ofMessage knownFields .little zeroed
      (callResponse longTransId ciaCallSuccess) = none :=
    (ChatMessage.ofMessage_eq_none_iff knownFields_lawful .little zeroed
      (by rw [hresp]; decide)).mpr (by rw [hresp]; decide)
  exact absurd (hnone.symm.trans hm) nofun

end CiaServer.Net
