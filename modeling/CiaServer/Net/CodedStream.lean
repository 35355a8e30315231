import CiaServer.Net.GeneratedMessage
import CiaServer.Wire.SkipField

/-!
# `MergePartialFromCodedStream` (`CiaProtocol.pb.cc`)

The generated parser is a loop around a `switch`, with jumps into the middle of
its cases: after each field it asks whether the tag of the next one follows,
and if so goes on behind the check of that tag. `mergeAt` has these places as
an argument: `none` is the head of the loop, `some f` the label of the field.

`parseFromArray_toMessage`: whatever was in the message before, the parser
gives what reading a tag and its field at a time gives (`CiaMessage.parseFromArray`).

Mirroring notes:
- `CodedInput` is what the generated code calls of `CodedInputStream`, a
  function of the bytes that are left. `ReadTagWithCutoff` returns 0 where no
  tag can be read, and need not say of 0 whether it is below the cutoff;
  `ExpectTag` and `ExpectAtEnd` may say no for no reason.
- A result is the message and whether the end of the array was noticed
  (`ConsumedEntireMessage`); what is in the message after `failure` is left out.
- The checks for UTF-8 only log.
-/

namespace CiaServer.Net

open Wire

/-- The tag of a field, where the parser compares it. -/
def Field.tag : Field → Nat
  | .type => 10
  | .signalId => 18
  | .status => 26
  | .pn => 34
  | .appId => 42
  | .authKey => 50
  | .imsi => 58
  | .transId => 66
  | .authCode => 74
  | .timeout => 82
  | .des => 90
  | .imei => 98
  | .mac => 106
  | .bluetooth => 114
  | .androidId => 122
  | .brand => 130
  | .phoneType => 138
  | .systemVersion => 146
  | .appName => 154
  | .appVersion => 162
  | .packageName => 170
  | .sdkVersion => 178

/-- The field the parser expects behind a field. -/
def Field.next : Field → Option Field
  | .type => some .signalId
  | .signalId => some .status
  | .status => some .pn
  | .pn => some .appId
  | .appId => some .authKey
  | .authKey => some .imsi
  | .imsi => some .transId
  | .transId => some .authCode
  | .authCode => some .timeout
  | .timeout => some .des
  | .des => some .imei
  | .imei => some .mac
  | .mac => some .bluetooth
  | .bluetooth => some .androidId
  | .androidId => some .brand
  | .brand => some .phoneType
  | .phoneType => some .systemVersion
  | .systemVersion => some .appName
  | .appName => some .appVersion
  | .appVersion => some .packageName
  | .packageName => some .sdkVersion
  | .sdkVersion => none

/-- The `case` of a field number. -/
def Field.ofNumber (n : Nat) : Option Field := Field.all.find? fun f => f.number == n

/-- Where the parser goes with a tag: to a field, or to `handle_unusual`. -/
def Field.dispatch (tag : Nat) (belowCutoff : Bool) : Option Field :=
  if belowCutoff then
    match Field.ofNumber (tag / 8) with
    | some f => if tag = f.tag then some f else none
    | none => none
  else none

/-- What the generated code calls of the reader, with the bytes that are left. -/
structure CodedInput where
  /-- `ReadTagWithCutoff(16383)` -/
  readTagWithCutoff : Bytes → Nat × Bool × Bytes
  /-- `ExpectTag`: the bytes behind the tag, if it is there. -/
  expectTag : Nat → Bytes → Option Bytes
  expectAtEnd : Bytes → Bool
  /-- `WireFormat::SkipField`: what it adds to the unknown fields, and what follows. -/
  skipField : Nat → Bytes → Option (Bytes × Bytes)

/-- What the library says of these functions. -/
structure CodedInput.Lawful (r : CodedInput) : Prop where
  readTag : ∀ {bs bs' : Bytes} {tag : Nat}, decodeVarint32 bs = some (tag, bs') →
    ∃ belowCutoff, r.readTagWithCutoff bs = (tag, belowCutoff, bs') ∧
      (belowCutoff = true → tag ≤ 16383) ∧ (belowCutoff = false → 16383 < tag ∨ tag = 0)
  noTag : ∀ {bs : Bytes}, decodeVarint32 bs = none → (r.readTagWithCutoff bs).1 = 0
  expectTag : ∀ {tag : Nat} {bs bs' : Bytes}, r.expectTag tag bs = some bs' →
    decodeVarint32 bs = some (tag, bs')
  expectAtEnd : ∀ {bs : Bytes}, r.expectAtEnd bs = true → bs = []
  skipField : ∀ {tag : Nat} {bs bs' u : Bytes}, r.skipField tag bs = some (u, bs') →
    bs'.length ≤ bs.length

theorem CiaMessage.mergePartial_nil (skipField : Nat → Bytes → Option (Bytes × Bytes)) (k : Nat)
    (m : CiaMessage) : mergePartial skipField k m [] = some m := by
  cases k <;> rfl

namespace GeneratedMessage

/-- `MergePartialFromCodedStream` from the head of the loop or the label of a
field on; `k` bounds the steps. -/
def mergeAt (r : CodedInput) :
    Nat → Option Field → GeneratedMessage → Bytes → Option (GeneratedMessage × Bool)
  | 0, _, _, _ => none
  | k + 1, some f, m, bs =>
    match decodeString bs with
    | none => none
    | some (s, bs') =>
      let m := (m.mutable f).assign f s
      match f.next with
      | some g =>
        match r.expectTag g.tag bs' with
        | some bs'' => mergeAt r k (some g) m bs''
        | none => mergeAt r k none m bs'
      | none => if r.expectAtEnd bs' then some (m, true) else mergeAt r k none m bs'
  | k + 1, none, m, bs =>
    match r.readTagWithCutoff bs with
    | (tag, belowCutoff, bs') =>
      match Field.dispatch tag belowCutoff with
      | some f => mergeAt r k (some f) m bs'
      | none =>
        -- `handle_unusual`
        if tag = 0 ∨ tag % 8 = 4 then some (m, bs.isEmpty)
        else match r.skipField tag bs' with
          | none => none
          | some (u, bs'') =>
            mergeAt r k none { m with unknownFields := m.unknownFields ++ u } bs''

/-- `ParseFromArray`, into a message that may have been used before. -/
def parseFromArray (r : CodedInput) (m : GeneratedMessage) (bs : Bytes) :
    Option GeneratedMessage :=
  match mergeAt r (bs.length + 1) none m.clear bs with
  | none => none
  | some (m', consumedEntireMessage) =>
    if m'.isInitialized && consumedEntireMessage then some m' else none

/-! ## The jumps save tags and change nothing -/

theorem tag_eq (f : Field) : f.tag = stringTag f.number := by
  cases f <;> rfl

theorem ofTag_eq_some_iff {tag : Nat} {f : Field} : Field.ofTag tag = some f ↔ tag = f.tag := by
  constructor
  · intro h
    have := List.find?_some h
    rw [tag_eq]
    exact (beq_iff_eq.mp this).symm
  · rintro rfl
    rw [tag_eq]
    exact CiaMessage.ofTag_stringTag f

theorem ofNumber_number (f : Field) : Field.ofNumber f.number = some f := by
  cases f <;> rfl

theorem tag_div (f : Field) : f.tag / 8 = f.number := by
  rw [tag_eq, stringTag]
  omega

theorem tag_ok (f : Field) : ¬(f.tag = 0 ∨ f.tag % 8 = 4) := by
  rw [tag_eq]
  exact CiaMessage.stringTag_ok f

/-- The `switch` finds the field of the tag. -/
theorem dispatch_eq_ofTag {tag : Nat} {belowCutoff : Bool}
    (h : belowCutoff = false → 16383 < tag ∨ tag = 0) :
    Field.dispatch tag belowCutoff = Field.ofTag tag := by
  refine Option.ext fun f => ?_
  rw [ofTag_eq_some_iff]
  constructor
  · intro hf
    unfold Field.dispatch at hf
    split at hf
    · split at hf
      · split at hf <;> cases hf
        assumption
      · cases hf
    · cases hf
  · rintro rfl
    have hle : f.tag ≤ 178 := by cases f <;> decide
    have htrue : belowCutoff = true := by
      cases belowCutoff with
      | true => rfl
      | false => have := tag_ok f; rcases h rfl with h | h <;> omega
    rw [Field.dispatch, if_pos htrue, tag_div, ofNumber_number]
    exact if_pos rfl

/-- What the caller of the parser sees, if it was told of the end. -/
def finished : Option (GeneratedMessage × Bool) → Option CiaMessage
  | some (m, true) => some m.toMessage
  | _ => none

theorem toMessage_mutable_assign (m : GeneratedMessage) (f : Field) (s : Bytes) :
    ((m.mutable f).assign f s).toMessage = m.toMessage.set f s := by
  refine toMessage_eq (fun g => ?_) ?_
  · rw [has_assign, has_mutable, value_assign, value_mutable]
    by_cases hg : g = f
    · simp [hg]
    · simp [CiaMessage.set_get_ne _ _ hg, hg, toMessage]
  · show (m.mutable f).unknownFields = m.unknownFields
    unfold mutable
    split <;> rfl

/-- What is left to do at a place of the parser, without jumps: at the label of a
field its tag has been read. -/
def rest (skipField : Nat → Bytes → Option (Bytes × Bytes)) (k : Nat) (m : CiaMessage) :
    Option Field → Bytes → Option CiaMessage
  | none, bs => CiaMessage.mergePartial skipField k m bs
  | some f, bs =>
    (decodeString bs).bind fun p => CiaMessage.mergePartial skipField k (m.set f p.1) p.2

/-- Reading the tag of a field leads to its label. -/
theorem mergePartial_of_tag {skipField : Nat → Bytes → Option (Bytes × Bytes)} {f : Field}
    {bs bs' : Bytes} (h : decodeVarint32 bs = some (f.tag, bs')) (k : Nat) (m : CiaMessage) :
    CiaMessage.mergePartial skipField (k + 1) m bs = rest skipField k m (some f) bs' := by
  cases bs with
  | nil => cases h
  | cons b bs =>
    simp only [CiaMessage.mergePartial, h, if_neg (tag_ok f), ofTag_eq_some_iff.mpr rfl, rest]
    cases decodeString bs' <;> rfl

/-- **The jumps change nothing**: from any place on the parser does what reading
a tag and its field at a time does. Every step takes a byte, so that one more
step than there are bytes is enough. -/
theorem mergeAt_eq {r : CodedInput} (hr : r.Lawful) : ∀ {k : Nat} {p : Option Field}
    {m : GeneratedMessage} {bs : Bytes} {j : Nat}, bs.length < k → bs.length ≤ j →
      finished (mergeAt r k p m bs) = rest r.skipField j m.toMessage p bs
  | 0, _, _, _, _, hk, _ => absurd hk (Nat.not_lt_zero _)
  | k + 1, some f, m, bs, j, hk, hj => by
    cases hs : decodeString bs with
    | none =>
      simp only [mergeAt, rest, hs]
      rfl
    | some p =>
      obtain ⟨s, bs'⟩ := p
      obtain ⟨_, hpos, hlen⟩ := size_of_decodeString hs
      simp only [mergeAt, rest, hs, Option.bind_some, ← toMessage_mutable_assign]
      cases f.next with
      | some g =>
        dsimp only
        cases ht : r.expectTag g.tag bs' with
        | some bs'' =>
          -- the tag of the next field is there: its label, with one tag less to read
          have htag := hr.expectTag ht
          obtain ⟨_, _, htlen⟩ := size_of_decodeVarint32 htag
          obtain ⟨j', rfl⟩ : ∃ j', j = j' + 1 := ⟨j - 1, by omega⟩
          rw [mergePartial_of_tag htag]
          exact mergeAt_eq hr (by omega) (by omega)
        | none => exact mergeAt_eq hr (by omega) (by omega)
      | none =>
        dsimp only
        split
        · next hend =>
          rw [hr.expectAtEnd hend, CiaMessage.mergePartial_nil]
          rfl
        · exact mergeAt_eq hr (by omega) (by omega)
  | k + 1, none, m, bs, j, hk, hj => by
    rw [mergeAt, rest]
    cases hv : decodeVarint32 bs with
    | none =>
      -- no tag: the end of the array, or something that is none
      have htag := hr.noTag hv
      rcases hread : r.readTagWithCutoff bs with ⟨tag, belowCutoff, bs'⟩
      rw [hread] at htag
      obtain rfl : tag = 0 := htag
      have hno : Field.dispatch 0 belowCutoff = none := by cases belowCutoff <;> rfl
      dsimp only
      rw [hno]
      cases bs with
      | nil =>
        rw [CiaMessage.mergePartial_nil]
        rfl
      | cons b bs =>
        cases j with
        | zero => rfl
        | succ j => simp only [CiaMessage.mergePartial, hv]; rfl
    | some p =>
      obtain ⟨tag, bs'⟩ := p
      obtain ⟨belowCutoff, hread, _, hcut⟩ := hr.readTag hv
      obtain ⟨_, hpos, hlen⟩ := size_of_decodeVarint32 hv
      obtain ⟨b, bs, rfl⟩ : ∃ b cs, bs = b :: cs := by
        cases bs with
        | nil => cases hv
        | cons b bs => exact ⟨b, bs, rfl⟩
      obtain ⟨j', rfl⟩ : ∃ j', j = j' + 1 := ⟨j - 1, by rw [List.length_cons] at hj; omega⟩
      rw [hread]
      dsimp only
      rw [dispatch_eq_ofTag hcut]
      cases hf : Field.ofTag tag with
      | some f =>
        rw [ofTag_eq_some_iff] at hf
        subst hf
        rw [mergePartial_of_tag hv]
        exact mergeAt_eq hr (by omega) (by omega)
      | none =>
        simp only [CiaMessage.mergePartial, hv, hf]
        split
        · rfl
        · cases hu : r.skipField tag bs' with
          | none => rfl
          | some p =>
            obtain ⟨u, bs''⟩ := p
            have hskip := hr.skipField hu
            exact mergeAt_eq hr (p := none) (by omega) (by omega)

theorem Valid.mutable_assign {m : GeneratedMessage} (hm : m.Valid) (f : Field) (s : Bytes) :
    ((m.mutable f).assign f s).Valid := by
  intro g hg
  rw [has_assign, has_mutable, Bool.or_eq_false_iff, decide_eq_false_iff_not] at hg
  rw [value_assign, if_neg hg.1, value_mutable]
  exact hm g hg.2

/-- The parser keeps the strings of unset fields empty. -/
theorem Valid.mergeAt {r : CodedInput} : ∀ {k : Nat} {p : Option Field}
    {m m' : GeneratedMessage} {bs : Bytes} {b : Bool}, m.Valid →
      GeneratedMessage.mergeAt r k p m bs = some (m', b) → m'.Valid
  | 0, _, _, _, _, _, _, h => by cases h
  | k + 1, some f, m, m', bs, b, hm, h => by
    rw [GeneratedMessage.mergeAt] at h
    split at h
    · cases h
    · next s bs' _ =>
      have hset := hm.mutable_assign f s
      dsimp only at h
      split at h
      · split at h
        · exact hset.mergeAt h
        · exact hset.mergeAt h
      · split at h
        · cases h
          exact hset
        · exact hset.mergeAt h
  | k + 1, none, m, m', bs, b, hm, h => by
    rw [GeneratedMessage.mergeAt] at h
    dsimp only at h
    split at h
    · exact hm.mergeAt h
    · split at h
      · cases h
        exact hm
      · split at h
        · cases h
        · next u bs'' _ =>
          have hu : Valid { m with unknownFields := m.unknownFields ++ u } := hm
          exact hu.mergeAt h

theorem Valid.parseFromArray {r : CodedInput} {m m' : GeneratedMessage} {bs : Bytes}
    (hm : m.Valid) (h : m.parseFromArray r bs = some m') : m'.Valid := by
  unfold GeneratedMessage.parseFromArray at h
  split at h
  · cases h
  · next m₁ b hrun =>
    split at h <;> cases h
    exact hm.clear.mergeAt hrun

/-- Both fail, or both succeed with the same message. -/
theorem parseFromArray_cases {r : CodedInput} (hr : r.Lawful) (m : GeneratedMessage) (bs : Bytes) :
    (m.parseFromArray r bs = none ∧ CiaMessage.parseFromArray r.skipField bs = none) ∨
    ∃ m', m.parseFromArray r bs = some m' ∧
      CiaMessage.parseFromArray r.skipField bs = some m'.toMessage := by
  have hrun := mergeAt_eq hr (p := none) (m := m.clear) (Nat.lt_succ_self bs.length)
    (Nat.le_refl _)
  rw [toMessage_clear] at hrun
  unfold parseFromArray CiaMessage.parseFromArray
  change _ = CiaMessage.mergePartial r.skipField bs.length CiaMessage.empty bs at hrun
  rw [← hrun]
  rcases mergeAt r (bs.length + 1) none m.clear bs with _ | ⟨m', _ | _⟩
  · exact Or.inl ⟨rfl, rfl⟩
  · exact Or.inl ⟨by simp, rfl⟩
  · simp only [finished, Bool.and_true, isInitialized_toMessage]
    split
    · exact Or.inr ⟨m', rfl, rfl⟩
    · exact Or.inl ⟨rfl, rfl⟩

/-- **The generated parser** reads a tag and its field at a time, whatever was in
the message before and wherever the reader lets it jump. -/
theorem parseFromArray_toMessage {r : CodedInput} (hr : r.Lawful) (m : GeneratedMessage)
    (bs : Bytes) :
    (m.parseFromArray r bs).map toMessage = CiaMessage.parseFromArray r.skipField bs := by
  rcases parseFromArray_cases hr m bs with ⟨h, h'⟩ | ⟨m', h, h'⟩ <;> rw [h, h'] <;> rfl

end GeneratedMessage

/-- A reader of an array in memory, but for groups. -/
def arrayInput : CodedInput where
  readTagWithCutoff bs :=
    match decodeVarint32 bs with
    | some (tag, bs') => (tag, decide (0 < tag ∧ tag ≤ 16383), bs')
    | none => (0, false, bs)
  expectTag tag bs :=
    if tag < 2 ^ 14 ∧ (encodeVarint tag).isPrefixOf bs then
      some (bs.drop (encodeVarint tag).length)
    else none
  expectAtEnd := List.isEmpty
  skipField := skipField

theorem arrayInput_lawful : arrayInput.Lawful where
  readTag := by
    intro bs bs' tag h
    refine ⟨decide (0 < tag ∧ tag ≤ 16383), ?_, ?_, ?_⟩
    · simp only [arrayInput, h]
    · intro hb
      exact (of_decide_eq_true hb).2
    · intro hb
      have := of_decide_eq_false hb
      omega
  noTag := by
    intro bs h
    simp only [arrayInput, h]
  expectTag := by
    intro tag bs bs' h
    simp only [arrayInput] at h
    split at h <;> cases h
    next hpre =>
      obtain ⟨hlt, hpre⟩ := hpre
      obtain ⟨cs, rfl⟩ := List.isPrefixOf_iff_prefix.mp hpre
      rw [List.drop_left]
      exact decodeVarint32_encodeVarint (by omega) cs
  expectAtEnd := List.isEmpty_iff.mp
  skipField := by
    intro tag bs bs' u h
    obtain ⟨p, hp, he⟩ := Option.map_eq_some_iff.mp h
    cases he
    obtain ⟨u, bs'⟩ := p
    have hlen := (skipPayload_spec hp).1
    dsimp only
    omega

/-- `type` and `signalId` in a row, a field of no known number, `type` again. -/
theorem parseFromArray_toMessage_jumps :
    (GeneratedMessage.sharedCtor.parseFromArray arrayInput
        [10, 1, 0x41, 18, 1, 0x42, 0xf8, 1, 5, 10, 1, 0x43]).map GeneratedMessage.toMessage
      = CiaMessage.parseFromArray skipField
        [10, 1, 0x41, 18, 1, 0x42, 0xf8, 1, 5, 10, 1, 0x43] :=
  GeneratedMessage.parseFromArray_toMessage arrayInput_lawful _ _

end CiaServer.Net
