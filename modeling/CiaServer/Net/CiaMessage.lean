import Mathlib.Algebra.GroupWithZero.Nat
import Mathlib.Algebra.Order.BigOperators.Group.List
import Mathlib.Algebra.Order.Group.Nat
import CiaServer.CiaDef
import CiaServer.Wire.Varint

/-!
# `ciaMessage` (`CiaProtocol.proto`, `CiaProtocol.pb.cc`)

A message is 22 optional strings, of which only `type` must be set for the
message to be initialized. `byteSize`, `serialize` and `parse` follow the
generated code field by field.

`Protobuf` is what the server calls of a message: `SerializeToArray` and
`ParseFromArray`. `Protobuf.Lawful` is what it relies on: the serialisation has
the length `ByteSize` says, and parsing it gives the message back. The
generated code over the wire format is lawful (`generated_lawful`), for any
reader of unknown fields.

Mirroring notes:
- `unknownFields` are the unknown fields as they would be serialised.
- The generated code expects the fields in order and jumps from one to the
  next (`ExpectTag`); that saves a tag lookup and changes no result.
- A tag 0, an end-group tag or a broken tag ends the loop with success but
  before the end of the array, and `ParseFromArray` then fails: `none`.
- `WireFormat::SkipField`, which reads an unknown field, is a parameter.
-/

namespace CiaServer.Net

open Wire

/-- The fields of a `ciaMessage`. -/
inductive Field where
  | type
  | signalId
  | status
  | pn
  | appId
  | authKey
  | imsi
  | transId
  | authCode
  | timeout
  | des
  | imei
  | mac
  | bluetooth
  | androidId
  | brand
  | phoneType
  | systemVersion
  | appName
  | appVersion
  | packageName
  | sdkVersion
  deriving DecidableEq, Repr

/-- The fields in the order of their numbers. -/
def Field.all : List Field :=
  [.type, .signalId, .status, .pn, .appId, .authKey, .imsi, .transId, .authCode, .timeout, .des,
   .imei, .mac, .bluetooth, .androidId, .brand, .phoneType, .systemVersion, .appName, .appVersion,
   .packageName, .sdkVersion]

/-- The field number of `CiaProtocol.proto`. -/
def Field.number : Field → Nat
  | .type => 1
  | .signalId => 2
  | .status => 3
  | .pn => 4
  | .appId => 5
  | .authKey => 6
  | .imsi => 7
  | .transId => 8
  | .authCode => 9
  | .timeout => 10
  | .des => 11
  | .imei => 12
  | .mac => 13
  | .bluetooth => 14
  | .androidId => 15
  | .brand => 16
  | .phoneType => 17
  | .systemVersion => 18
  | .appName => 19
  | .appVersion => 20
  | .packageName => 21
  | .sdkVersion => 22

/-- The size of the tag, as `ByteSize` counts it. -/
def Field.tagSize (f : Field) : Nat := if f.number < 16 then 1 else 2

/-- The field a tag announces, if it is one of the message's strings. -/
def Field.ofTag (tag : Nat) : Option Field := Field.all.find? fun f => stringTag f.number == tag

/-- `ciaMessage`. -/
@[ext] structure CiaMessage where
  get : Field → Option Bytes
  unknownFields : Bytes

namespace CiaMessage

/-- A message after `Clear`. -/
def empty : CiaMessage := { get := fun _ => none, unknownFields := [] }

/-- `set_type` … `set_sdkversion`. -/
def set (m : CiaMessage) (f : Field) (s : Bytes) : CiaMessage :=
  { m with get := fun g => if g = f then some s else m.get g }

/-- `type()` … `sdkversion()`: the empty string for a field that is not set. -/
def value (m : CiaMessage) (f : Field) : Bytes := (m.get f).getD []

@[simp] theorem set_get_self (m : CiaMessage) (f : Field) (s : Bytes) :
    (m.set f s).get f = some s := if_pos rfl

theorem set_get_ne (m : CiaMessage) {f g : Field} (s : Bytes) (h : g ≠ f) :
    (m.set f s).get g = m.get g := if_neg h

@[simp] theorem set_unknownFields (m : CiaMessage) (f : Field) (s : Bytes) :
    (m.set f s).unknownFields = m.unknownFields := rfl

/-- `IsInitialized`. -/
def isInitialized (m : CiaMessage) : Bool := (m.get .type).isSome

/-- `WireFormatLite::StringSize`. -/
def stringSize (s : Bytes) : Nat := varintSize32 s.length + s.length

/-- What a field adds to `ByteSize`. -/
def fieldSize (m : CiaMessage) (f : Field) : Nat :=
  match m.get f with
  | some s => f.tagSize + stringSize s
  | none => 0

/-- `ByteSize`. -/
def byteSize (m : CiaMessage) : Nat := (Field.all.map m.fieldSize).sum + m.unknownFields.length

/-- The bytes of one field, none if it is not set. -/
def serializeField (m : CiaMessage) (f : Field) : Bytes :=
  match m.get f with
  | some s => encodeString f.number s
  | none => []

/-- `SerializeWithCachedSizesToArray`. -/
def serialize (m : CiaMessage) : Bytes :=
  (Field.all.map m.serializeField).flatten ++ m.unknownFields

/-- The loop of `MergePartialFromCodedStream`, which reads a tag and its field
at a time, over an input that it must use up; `k` bounds the fields. -/
def mergePartial (skipField : Nat → Bytes → Option (Bytes × Bytes)) :
    Nat → CiaMessage → Bytes → Option CiaMessage
  | _, m, [] => some m
  | 0, _, _ => none
  | k + 1, m, bs =>
    match decodeVarint32 bs with
    | none => none
    | some (tag, bs') =>
      -- the end of a group, which no message is inside of
      if tag = 0 ∨ tag % 8 = 4 then none
      else match Field.ofTag tag with
        | some f =>
          match decodeString bs' with
          | none => none
          | some (s, bs'') => mergePartial skipField k (m.set f s) bs''
        | none =>
          match skipField tag bs' with
          | none => none
          | some (u, bs'') =>
            mergePartial skipField k { m with unknownFields := m.unknownFields ++ u } bs''

/-- `ParseFromArray`. -/
def parseFromArray (skipField : Nat → Bytes → Option (Bytes × Bytes)) (bs : Bytes) :
    Option CiaMessage :=
  match mergePartial skipField bs.length empty bs with
  | none => none
  | some m => if m.isInitialized then some m else none

end CiaMessage

/-- What the server calls of the protocol buffer library. -/
structure Protobuf where
  /-- The bytes `SerializeToArray` writes. -/
  serialize : CiaMessage → Bytes
  /-- `ParseFromArray` into a fresh message. -/
  parse : Bytes → Option CiaMessage

/-- What the server relies on: `SerializeToArray` writes as many bytes as
`ByteSize` says, parsing the serialisation of an initialized message gives it
back, and a parsed string is no longer than what it was parsed from. Sizes are
`int`s; the round trip is left open for unknown fields. -/
structure Protobuf.Lawful (P : Protobuf) : Prop where
  length_serialize : ∀ m, m.byteSize < 2 ^ 31 → (P.serialize m).length = m.byteSize
  parse_serialize : ∀ m, m.byteSize < 2 ^ 31 → m.isInitialized = true → m.unknownFields = [] →
    P.parse (P.serialize m) = some m
  length_parse : ∀ bs m, P.parse bs = some m → ∀ f, (m.value f).length ≤ bs.length

/-- The generated code. -/
def generated (skipField : Nat → Bytes → Option (Bytes × Bytes)) : Protobuf where
  serialize := CiaMessage.serialize
  parse := CiaMessage.parseFromArray skipField

/-! ## The generated code is lawful -/

namespace CiaMessage

theorem mem_all (f : Field) : f ∈ Field.all := by
  cases f <;> decide

theorem ofTag_stringTag (f : Field) : Field.ofTag (stringTag f.number) = some f := by
  cases f <;> rfl

theorem length_stringTag (f : Field) : (encodeVarint (stringTag f.number)).length = f.tagSize := by
  cases f <;> rfl

theorem stringTag_lt (f : Field) : stringTag f.number < 2 ^ 32 := by
  cases f <;> decide

theorem stringTag_ok (f : Field) :
    ¬(stringTag f.number = 0 ∨ stringTag f.number % 8 = 4) := by
  cases f <;> decide

theorem fieldSize_le (m : CiaMessage) (f : Field) : m.fieldSize f ≤ m.byteSize := by
  have := List.single_le_sum (fun x _ => Nat.zero_le x) (m.fieldSize f)
    (List.mem_map_of_mem (f := m.fieldSize) (mem_all f))
  unfold byteSize
  omega

/-- Two assignments that differ in one field differ in sum by that field. -/
theorem sum_map_add {φ ψ : Field → Nat} {f : Field} (h : ∀ g, g ≠ f → ψ g = φ g) :
    ∀ {fs : List Field}, fs.Nodup → f ∈ fs → (fs.map ψ).sum + φ f = (fs.map φ).sum + ψ f
  | g :: fs, hnd, hf => by
    obtain ⟨hg, hnd⟩ := List.nodup_cons.mp hnd
    simp only [List.map_cons, List.sum_cons]
    rcases List.mem_cons.mp hf with rfl | hf
    · have hmap : fs.map ψ = fs.map φ :=
        List.map_congr_left fun a ha => h a fun he => hg (he ▸ ha)
      rw [hmap]
      omega
    · have ih := sum_map_add h hnd hf
      rw [h g fun he => hg (he ▸ hf)]
      omega

@[simp] theorem byteSize_empty : empty.byteSize = 0 := rfl

/-- Setting a field adds its size. -/
theorem byteSize_set {m : CiaMessage} {f : Field} (hf : m.get f = none) (s : Bytes) :
    (m.set f s).byteSize = m.byteSize + (f.tagSize + stringSize s) := by
  have hother : ∀ g, g ≠ f → (m.set f s).fieldSize g = m.fieldSize g := by
    intro g hg
    simp only [fieldSize, set_get_ne _ _ hg]
  have hold : m.fieldSize f = 0 := by simp only [fieldSize, hf]
  have hnew : (m.set f s).fieldSize f = f.tagSize + stringSize s := by
    simp only [fieldSize, set_get_self]
  -- `f` is one of the fields, and only once
  have h := sum_map_add hother (show Field.all.Nodup by decide) (mem_all f)
  rw [hold, hnew] at h
  rw [byteSize, byteSize, set_unknownFields]
  omega

theorem length_lt_of_byteSize {m : CiaMessage} (h : m.byteSize < 2 ^ 31) {f : Field} {s : Bytes}
    (hs : m.get f = some s) : s.length < 2 ^ 32 := by
  have h₁ := m.fieldSize_le f
  simp only [fieldSize, hs, stringSize] at h₁
  omega

theorem length_serializeField {m : CiaMessage} (h : m.byteSize < 2 ^ 31) (f : Field) :
    (m.serializeField f).length = m.fieldSize f := by
  unfold serializeField fieldSize
  split
  · next s hs =>
    have hlt := length_lt_of_byteSize h hs
    rw [encodeString, List.length_append, List.length_append, length_stringTag,
      length_encodeVarint hlt, stringSize, Nat.add_assoc]
  · rfl

/-- The generated code writes as many bytes as it announces. -/
theorem length_serialize {m : CiaMessage} (h : m.byteSize < 2 ^ 31) :
    m.serialize.length = m.byteSize := by
  rw [serialize, byteSize, List.length_append, List.length_flatten, List.map_map]
  congr 2
  exact List.map_congr_left fun f _ => length_serializeField h f

/-- Reading one field that was written. -/
theorem mergePartial_field (skipField : Nat → Bytes → Option (Bytes × Bytes)) (k : Nat)
    (m : CiaMessage) (f : Field) {s : Bytes} (hs : s.length < 2 ^ 32) (bs : Bytes) :
    mergePartial skipField (k + 1) m (encodeString f.number s ++ bs)
      = mergePartial skipField k (m.set f s) bs := by
  have happ : encodeString f.number s ++ bs
      = encodeVarint (stringTag f.number) ++ (encodeVarint s.length ++ (s ++ bs)) := by
    rw [encodeString, List.append_assoc, List.append_assoc]
  obtain ⟨b, bs', hb⟩ := List.exists_cons_of_ne_nil
    (List.append_ne_nil_of_left_ne_nil (encodeVarint_ne_nil (stringTag f.number))
      (encodeVarint s.length ++ (s ++ bs)))
  have hd := decodeVarint32_encodeVarint (stringTag_lt f) (encodeVarint s.length ++ (s ++ bs))
  rw [happ, hb]
  rw [hb] at hd
  simp only [mergePartial, hd, if_neg (stringTag_ok f), ofTag_stringTag, decodeString_encode hs]

/-- Reading the fields of a list that were written sets just those. -/
theorem mergePartial_fields (skipField : Nat → Bytes → Option (Bytes × Bytes)) {m : CiaMessage}
    (hm : ∀ f s, m.get f = some s → s.length < 2 ^ 32) :
    ∀ (fs : List Field) (k : Nat) (m₀ : CiaMessage), (fs.map m.serializeField).flatten.length ≤ k →
      ∃ m', mergePartial skipField k m₀ (fs.map m.serializeField).flatten = some m' ∧
        m'.unknownFields = m₀.unknownFields ∧
        ∀ g, m'.get g = if g ∈ fs ∧ (m.get g).isSome then m.get g else m₀.get g
  | [], k, m₀, _ => by
    refine ⟨m₀, ?_, rfl, fun g => ?_⟩
    · cases k <;> rfl
    · rw [if_neg (by simp)]
  | f :: fs, k, m₀, hk => by
    rw [List.map_cons, List.flatten_cons] at hk ⊢
    cases hf : m.get f with
    -- a field that is not set leaves no bytes and changes nothing
    | none =>
      have hnil : m.serializeField f = [] := by simp only [serializeField, hf]
      rw [hnil, List.nil_append] at hk ⊢
      obtain ⟨m', h₁, h₂, h₃⟩ := mergePartial_fields skipField hm fs k m₀ hk
      refine ⟨m', h₁, h₂, fun g => ?_⟩
      rw [h₃ g]
      by_cases hg : g = f
      · subst hg
        simp [hf]
      · simp [hg]
    | some s =>
      have henc : m.serializeField f = encodeString f.number s := by
        simp only [serializeField, hf]
      rw [henc] at hk ⊢
      have hpos : 0 < (encodeString f.number s).length := by
        rw [encodeString, List.length_append, List.length_append, length_stringTag]
        unfold Field.tagSize
        split <;> omega
      rw [List.length_append] at hk
      obtain ⟨k', rfl⟩ : ∃ k', k = k' + 1 := ⟨k - 1, by omega⟩
      obtain ⟨m', h₁, h₂, h₃⟩ := mergePartial_fields skipField hm fs k' (m₀.set f s) (by omega)
      refine ⟨m', ?_, h₂, fun g => ?_⟩
      · rw [mergePartial_field skipField k' m₀ f (hm f s hf)]
        exact h₁
      · rw [h₃ g]
        by_cases hg : g = f
        · subst hg
          simp [hf]
        · simp [hg, set_get_ne _ _ hg]

/-- Parsing what was written gives the message back. -/
theorem parse_serialize (skipField : Nat → Bytes → Option (Bytes × Bytes)) {m : CiaMessage}
    (h : m.byteSize < 2 ^ 31) (hinit : m.isInitialized = true) (hu : m.unknownFields = []) :
    parseFromArray skipField m.serialize = some m := by
  have hser : m.serialize = (Field.all.map m.serializeField).flatten := by
    rw [serialize, hu, List.append_nil]
  obtain ⟨m', h₁, h₂, h₃⟩ := mergePartial_fields skipField
    (fun f s => length_lt_of_byteSize h) Field.all _ empty (Nat.le_refl _)
  have hm : m' = m := by
    refine CiaMessage.ext (funext fun g => ?_) (h₂.trans hu.symm)
    rw [h₃ g]
    cases hg : m.get g with
    | none => rw [if_neg (by simp)]; rfl
    | some s => rw [if_pos ⟨mem_all g, rfl⟩]
  rw [parseFromArray, hser, h₁, hm]
  simp only [hinit, if_true]

/-- The strings of a message are no longer than `n`. -/
def Within (m : CiaMessage) (n : Nat) : Prop := ∀ f, (m.value f).length ≤ n

theorem Within.set {m : CiaMessage} {n : Nat} (hm : m.Within n) (f : Field) {s : Bytes}
    (hs : s.length ≤ n) : (m.set f s).Within n := by
  intro g
  unfold value
  by_cases hg : g = f
  · subst hg
    rw [set_get_self]
    exact hs
  · rw [set_get_ne _ _ hg]
    exact hm g

/-- A reader that only moves forward sets no string longer than its input. -/
theorem within_mergePartial {skipField : Nat → Bytes → Option (Bytes × Bytes)}
    (hskip : ∀ tag bs u bs', skipField tag bs = some (u, bs') → bs'.length ≤ bs.length) {n : Nat} :
    ∀ {k : Nat} {m m' : CiaMessage} {bs : Bytes}, m.Within n → bs.length ≤ n →
      mergePartial skipField k m bs = some m' → m'.Within n
  | 0, m, m', [], hm, _, h => by cases h; exact hm
  | k + 1, m, m', [], hm, _, h => by cases h; exact hm
  | 0, m, m', b :: bs, _, _, h => by cases h
  | k + 1, m, m', b :: bs, hm, hn, h => by
    unfold mergePartial at h
    split at h
    · cases h
    · next tag bs' hv =>
      have hbs' := length_of_decodeVarint32 hv
      split at h
      · cases h
      · split at h
        · split at h
          · cases h
          · next hs =>
            obtain ⟨hs₁, hs₂⟩ := length_of_decodeString hs
            exact within_mergePartial hskip (hm.set _ (by omega)) (by omega) h
        · split at h
          · cases h
          · next u bs'' hu =>
            have hbs'' := hskip _ _ _ _ hu
            refine within_mergePartial hskip ?_ (by omega) h
            exact hm

theorem length_parse {skipField : Nat → Bytes → Option (Bytes × Bytes)}
    (hskip : ∀ tag bs u bs', skipField tag bs = some (u, bs') → bs'.length ≤ bs.length)
    {bs : Bytes} {m : CiaMessage} (h : parseFromArray skipField bs = some m) :
    m.Within bs.length := by
  unfold parseFromArray at h
  split at h
  · cases h
  · next m' hm =>
    split at h <;> cases h
    exact within_mergePartial hskip (fun _ => Nat.zero_le _) (Nat.le_refl _) hm

end CiaMessage

/-- **The generated code is lawful**, with any reader of unknown fields that
moves forward. -/
theorem generated_lawful {skipField : Nat → Bytes → Option (Bytes × Bytes)}
    (hskip : ∀ tag bs u bs', skipField tag bs = some (u, bs') → bs'.length ≤ bs.length) :
    (generated skipField).Lawful where
  length_serialize := fun _ h => CiaMessage.length_serialize h
  parse_serialize := fun _ h hinit hu => CiaMessage.parse_serialize skipField h hinit hu
  length_parse := fun _ _ h => CiaMessage.length_parse hskip h

/-- The generated code, where no unknown field can be read. -/
def knownFields : Protobuf := generated fun _ _ => none

theorem knownFields_lawful : knownFields.Lawful := generated_lawful nofun

end CiaServer.Net
