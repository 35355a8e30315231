import CiaServer.Machine.Masks
import CiaServer.Net.CiaMessage

/-!
# The generated class (`CiaProtocol.pb.h`, `CiaProtocol.pb.cc`)

The class keeps a string for each field and, apart from it, a bit that says
whether the field is set. `type()` returns the string without a look at the
bit, and `Clear`, `MergeFrom` and `ByteSize` test the bits of eight fields at
once before they look at any of them.

`Valid` is what all of this rests on: the string of a field that is not set is
empty. Every member function keeps it, and does to `toMessage`, the optional
strings, what it is there for.

Mirroring notes:
- A string is either one of its own or the empty string that all messages
  share, `none`, which nothing writes to.
- `release_type` …, `set_allocated_type` …, the overloads for character
  pointers and the cached size are left out.
-/

namespace CiaServer.Net

open Machine

/-- The mask of a field's bit in `_has_bits_[0]`. -/
def Field.hasBit : Field → BitVec 32
  | .type => 0x00000001
  | .signalId => 0x00000002
  | .status => 0x00000004
  | .pn => 0x00000008
  | .appId => 0x00000010
  | .authKey => 0x00000020
  | .imsi => 0x00000040
  | .transId => 0x00000080
  | .authCode => 0x00000100
  | .timeout => 0x00000200
  | .des => 0x00000400
  | .imei => 0x00000800
  | .mac => 0x00001000
  | .bluetooth => 0x00002000
  | .androidId => 0x00004000
  | .brand => 0x00008000
  | .phoneType => 0x00010000
  | .systemVersion => 0x00020000
  | .appName => 0x00040000
  | .appVersion => 0x00080000
  | .packageName => 0x00100000
  | .sdkVersion => 0x00200000

/-- The fields whose bits are in the first byte of `_has_bits_[0]`. -/
def Field.first : List Field :=
  [.type, .signalId, .status, .pn, .appId, .authKey, .imsi, .transId]

/-- The fields whose bits are in the second byte. -/
def Field.second : List Field :=
  [.authCode, .timeout, .des, .imei, .mac, .bluetooth, .androidId, .brand]

/-- The fields whose bits are in the third byte. -/
def Field.third : List Field :=
  [.phoneType, .systemVersion, .appName, .appVersion, .packageName, .sdkVersion]

/-- `clear_type` … `clear_sdkversion`, of optional strings. -/
def CiaMessage.clearField (m : CiaMessage) (f : Field) : CiaMessage :=
  { m with get := fun g => if g = f then none else m.get g }

/-- The fields of `src` where they are set, those of `m` elsewhere. -/
def CiaMessage.merge (m src : CiaMessage) : CiaMessage :=
  { get := fun f => (src.get f).or (m.get f), unknownFields := m.unknownFields ++ src.unknownFields }

/-- The members of the class. -/
structure GeneratedMessage where
  /-- `_has_bits_[0]` -/
  hasBits : BitVec 32
  /-- `type_` … `sdkversion_` -/
  strings : Field → Option Bytes
  unknownFields : Bytes

namespace GeneratedMessage

/-- `SharedCtor`. -/
def sharedCtor : GeneratedMessage :=
  { hasBits := 0, strings := fun _ => none, unknownFields := [] }

/-- `has_type` … `has_sdkversion`. -/
def has (m : GeneratedMessage) (f : Field) : Bool := m.hasBits &&& f.hasBit != 0

/-- `set_has_type` … `set_has_sdkversion`. -/
def setHas (m : GeneratedMessage) (f : Field) : GeneratedMessage :=
  { m with hasBits := m.hasBits ||| f.hasBit }

/-- `clear_has_type` … `clear_has_sdkversion`. -/
def clearHas (m : GeneratedMessage) (f : Field) : GeneratedMessage :=
  { m with hasBits := m.hasBits &&& ~~~f.hasBit }

/-- `type()` … `sdkversion()`. -/
def value (m : GeneratedMessage) (f : Field) : Bytes := (m.strings f).getD []

/-- Assigns to a string of the message's own. -/
def assign (m : GeneratedMessage) (f : Field) (s : Bytes) : GeneratedMessage :=
  { m with strings := fun g => if g = f then some s else m.strings g }

/-- `type_->clear()` … `sdkversion_->clear()`, but not for the shared string. -/
def clearString (m : GeneratedMessage) (f : Field) : GeneratedMessage :=
  if (m.strings f).isSome then m.assign f [] else m

/-- `clear_type` … `clear_sdkversion`. -/
def clearField (m : GeneratedMessage) (f : Field) : GeneratedMessage :=
  (m.clearString f).clearHas f

/-- `set_type` … `set_sdkversion`. -/
def set (m : GeneratedMessage) (f : Field) (s : Bytes) : GeneratedMessage :=
  (m.setHas f).assign f s

/-- `mutable_type` … `mutable_sdkversion`, which return the string to write to. -/
def mutable (m : GeneratedMessage) (f : Field) : GeneratedMessage :=
  if (m.strings f).isSome then m.setHas f else (m.setHas f).assign f []

/-- The part of `Clear` behind one of its masks. -/
def clearGroup (m : GeneratedMessage) (mask : BitVec 32) (fs : List Field) : GeneratedMessage :=
  if m.hasBits &&& mask = 0 then m
  else fs.foldl (fun m f => if m.has f then m.clearString f else m) m

/-- `Clear`. -/
def clear (m : GeneratedMessage) : GeneratedMessage :=
  let m := m.clearGroup 255 Field.first
  let m := m.clearGroup 65280 Field.second
  let m := m.clearGroup 4128768 Field.third
  { m with hasBits := 0, unknownFields := [] }

/-- The part of `MergeFrom` behind one of its masks. -/
def mergeGroup (src : GeneratedMessage) (m : GeneratedMessage) (mask : BitVec 32)
    (fs : List Field) : GeneratedMessage :=
  if src.hasBits &&& mask = 0 then m
  else fs.foldl (fun m f => if src.has f then m.set f (src.value f) else m) m

/-- `MergeFrom(src)`, of another message. -/
def mergeFrom (m src : GeneratedMessage) : GeneratedMessage :=
  let m := src.mergeGroup m (0xff <<< 0) Field.first
  let m := src.mergeGroup m (0xff <<< 8) Field.second
  let m := src.mergeGroup m (0xff <<< 16) Field.third
  { m with unknownFields := m.unknownFields ++ src.unknownFields }

/-- `CopyFrom(src)`, of another message. -/
def copyFrom (m src : GeneratedMessage) : GeneratedMessage := m.clear.mergeFrom src

/-- `IsInitialized`. -/
def isInitialized (m : GeneratedMessage) : Bool := m.hasBits &&& 0x00000001 = 0x00000001

/-- What a field adds to `ByteSize`. -/
def fieldSize (m : GeneratedMessage) (f : Field) : Nat :=
  if m.has f then f.tagSize + CiaMessage.stringSize (m.value f) else 0

/-- The part of `ByteSize` behind one of its masks. -/
def groupSize (m : GeneratedMessage) (mask : BitVec 32) (fs : List Field) : Nat :=
  if m.hasBits &&& mask = 0 then 0 else (fs.map m.fieldSize).sum

/-- `ByteSize`. -/
def byteSize (m : GeneratedMessage) : Nat :=
  m.groupSize (0xff <<< 0) Field.first + m.groupSize (0xff <<< 8) Field.second
    + m.groupSize (0xff <<< 16) Field.third + m.unknownFields.length

/-- `SerializeWithCachedSizesToArray`. -/
def serialize (m : GeneratedMessage) : Bytes :=
  (Field.all.map fun f => if m.has f then Wire.encodeString f.number (m.value f) else []).flatten
    ++ m.unknownFields

/-- The optional strings. -/
def toMessage (m : GeneratedMessage) : CiaMessage where
  get f := if m.has f then some (m.value f) else none
  unknownFields := m.unknownFields

/-- The string of a field that is not set is empty. -/
def Valid (m : GeneratedMessage) : Prop := ∀ f, m.has f = false → m.value f = []

/-! ## Bits -/

theorem hasBit_eq (f : Field) : f.hasBit = BitVec.twoPow 32 (f.number - 1) := by
  cases f <;> rfl

theorem number_sub_lt (f : Field) : f.number - 1 < 32 := by
  cases f <;> decide

theorem number_sub_inj {f g : Field} (h : f.number - 1 = g.number - 1) : f = g := by
  cases f <;> cases g <;> first | rfl | cases h

/-- `has_type` … test one bit. -/
theorem has_eq (m : GeneratedMessage) (f : Field) :
    m.has f = m.hasBits.getLsbD (f.number - 1) := by
  rw [has, hasBit_eq]
  exact and_twoPow_bne_zero (number_sub_lt f) m.hasBits

theorem number_sub_eq_iff (f g : Field) : g.number - 1 = f.number - 1 ↔ g = f :=
  ⟨number_sub_inj, fun h => h ▸ rfl⟩

@[simp] theorem has_setHas (m : GeneratedMessage) (f g : Field) :
    (m.setHas f).has g = (decide (g = f) || m.has g) := by
  rw [has_eq, has_eq, setHas, hasBit_eq, getLsbD_or_twoPow (number_sub_lt g)]
  simp only [number_sub_eq_iff]

@[simp] theorem has_clearHas (m : GeneratedMessage) (f g : Field) :
    (m.clearHas f).has g = (!decide (g = f) && m.has g) := by
  rw [has_eq, has_eq, clearHas, hasBit_eq, getLsbD_and_not_twoPow (number_sub_lt g)]
  simp only [number_sub_eq_iff]

/-- A mask that covers the fields of a list misses none of them. -/
theorem has_of_and_eq_zero {m : GeneratedMessage} {mask : BitVec 32} {fs : List Field}
    (hmask : ∀ f ∈ fs, mask &&& f.hasBit = f.hasBit) (h : m.hasBits &&& mask = 0) :
    ∀ f ∈ fs, m.has f = false := by
  intro f hf
  rw [has, and_eq_zero_of_covered (hmask f hf) h]
  rfl

theorem isInitialized_eq (m : GeneratedMessage) : m.isInitialized = m.has .type := by
  have hone : (0x00000001 : BitVec 32) = BitVec.twoPow 32 0 := rfl
  rw [has_eq, isInitialized, hone, BitVec.and_twoPow]
  show _ = m.hasBits.getLsbD 0
  cases m.hasBits.getLsbD 0 <;> rfl

/-! ## The strings -/

@[simp] theorem has_assign (m : GeneratedMessage) (f g : Field) (s : Bytes) :
    (m.assign f s).has g = m.has g := rfl

@[simp] theorem value_assign (m : GeneratedMessage) (f g : Field) (s : Bytes) :
    (m.assign f s).value g = if g = f then s else m.value g := by
  unfold value assign
  by_cases h : g = f
  · simp [h]
  · simp [h]

@[simp] theorem value_setHas (m : GeneratedMessage) (f g : Field) :
    (m.setHas f).value g = m.value g := rfl

@[simp] theorem value_clearHas (m : GeneratedMessage) (f g : Field) :
    (m.clearHas f).value g = m.value g := rfl

@[simp] theorem has_clearString (m : GeneratedMessage) (f g : Field) :
    (m.clearString f).has g = m.has g := by
  unfold clearString
  split <;> rfl

/-- The shared string is empty already. -/
@[simp] theorem value_clearString (m : GeneratedMessage) (f g : Field) :
    (m.clearString f).value g = if g = f then [] else m.value g := by
  unfold clearString
  split
  · exact value_assign m f g []
  · next h =>
    rw [Bool.not_eq_true, Option.isSome_eq_false_iff, Option.isNone_iff_eq_none] at h
    split
    · next hg =>
      subst hg
      rw [value, h]
      rfl
    · rfl

@[simp] theorem unknownFields_clearString (m : GeneratedMessage) (f : Field) :
    (m.clearString f).unknownFields = m.unknownFields := by
  unfold clearString
  split <;> rfl

@[simp] theorem has_set (m : GeneratedMessage) (f g : Field) (s : Bytes) :
    (m.set f s).has g = (decide (g = f) || m.has g) := has_setHas m f g

@[simp] theorem value_set (m : GeneratedMessage) (f g : Field) (s : Bytes) :
    (m.set f s).value g = if g = f then s else m.value g := value_assign (m.setHas f) f g s

@[simp] theorem has_mutable (m : GeneratedMessage) (f g : Field) :
    (m.mutable f).has g = (decide (g = f) || m.has g) := by
  unfold mutable
  split
  · exact has_setHas m f g
  · exact has_setHas m f g

@[simp] theorem value_mutable (m : GeneratedMessage) (f g : Field) :
    (m.mutable f).value g = m.value g := by
  unfold mutable
  split
  · rfl
  · next h =>
    rw [Bool.not_eq_true, Option.isSome_eq_false_iff, Option.isNone_iff_eq_none] at h
    rw [value_assign, value_setHas]
    split
    · next hg =>
      subst hg
      rw [value, h]
      rfl
    · rfl

/-! ## Groups of fields -/

/-- The masks hide nothing: behind each of them are the bits of its fields. -/
theorem clearGroup_eq {mask : BitVec 32} {fs : List Field}
    (hmask : ∀ f ∈ fs, mask &&& f.hasBit = f.hasBit) (m : GeneratedMessage) :
    (∀ g, (m.clearGroup mask fs).has g = m.has g) ∧
      ∀ g, (m.clearGroup mask fs).value g = if g ∈ fs ∧ m.has g then [] else m.value g := by
  unfold clearGroup
  split
  · next h =>
    refine ⟨fun _ => rfl, fun g => ?_⟩
    rw [if_neg]
    rintro ⟨hg, hset⟩
    rw [has_of_and_eq_zero hmask h g hg] at hset
    cases hset
  · exact ⟨fun g => foldl_frame (fun m => m.has g) (fun m f => has_clearString m f g) fs m,
      foldl_update value (fun _ => []) value_clearString has_clearString fs m⟩

theorem mergeGroup_eq {mask : BitVec 32} {fs : List Field}
    (hmask : ∀ f ∈ fs, mask &&& f.hasBit = f.hasBit) (src m : GeneratedMessage) :
    (src.mergeGroup m mask fs).unknownFields = m.unknownFields ∧
      (∀ g, (src.mergeGroup m mask fs).has g = if g ∈ fs ∧ src.has g then true else m.has g) ∧
      ∀ g, (src.mergeGroup m mask fs).value g
        = if g ∈ fs ∧ src.has g then src.value g else m.value g := by
  unfold mergeGroup
  split
  · next h =>
    have hnone : ∀ g, ¬(g ∈ fs ∧ src.has g = true) := by
      rintro g ⟨hg, hset⟩
      rw [has_of_and_eq_zero hmask h g hg] at hset
      cases hset
    exact ⟨rfl, fun g => by rw [if_neg (hnone g)], fun g => by rw [if_neg (hnone g)]⟩
  · have hcopy : ∀ (m : GeneratedMessage) f g, (m.set f (src.value f)).value g
        = if g = f then src.value g else m.value g := by
      intro m f g
      rw [value_set]
      split
      · next h => rw [h]
      · rfl
    have hmark : ∀ (m : GeneratedMessage) f g,
        (m.set f (src.value f)).has g = if g = f then true else m.has g := by
      intro m f g
      rw [has_set]
      split
      · next h => simp [h]
      · next h => simp [h]
    have hframe : ∀ (m : GeneratedMessage) f,
        (m.set f (src.value f)).unknownFields = m.unknownFields := fun _ _ => rfl
    exact ⟨foldl_frame unknownFields hframe fs m,
      foldl_update has (fun _ => true) hmark (fun _ _ _ => rfl) fs m,
      foldl_update value src.value hcopy (fun _ _ _ => rfl) fs m⟩

theorem groupSize_eq {mask : BitVec 32} {fs : List Field}
    (hmask : ∀ f ∈ fs, mask &&& f.hasBit = f.hasBit) (m : GeneratedMessage) :
    m.groupSize mask fs = (fs.map m.fieldSize).sum := by
  unfold groupSize
  split
  · next h =>
    have hnone := has_of_and_eq_zero hmask h
    have hzero : fs.map m.fieldSize = fs.map fun _ => 0 :=
      List.map_congr_left fun f hf => by rw [fieldSize, hnone f hf]; rfl
    rw [hzero, List.map_const', List.sum_replicate, nsmul_zero]
  · rfl

/-- Every field is in one of the three groups. -/
theorem mem_groups (f : Field) : f ∈ Field.first ∨ f ∈ Field.second ∨ f ∈ Field.third := by
  cases f <;> decide

theorem has_mergeFrom (m src : GeneratedMessage) (f : Field) :
    (m.mergeFrom src).has f = (src.has f || m.has f) := by
  show (src.mergeGroup (src.mergeGroup (src.mergeGroup m (0xff <<< 0) Field.first) (0xff <<< 8)
    Field.second) (0xff <<< 16) Field.third).has f = _
  rw [(mergeGroup_eq (by decide) src _).2.1, (mergeGroup_eq (by decide) src _).2.1,
    (mergeGroup_eq (by decide) src _).2.1]
  cases hf : src.has f with
  | false => simp
  | true => rcases mem_groups f with h | h | h <;> simp [h]

theorem value_mergeFrom (m src : GeneratedMessage) (f : Field) :
    (m.mergeFrom src).value f = if src.has f then src.value f else m.value f := by
  show (src.mergeGroup (src.mergeGroup (src.mergeGroup m (0xff <<< 0) Field.first) (0xff <<< 8)
    Field.second) (0xff <<< 16) Field.third).value f = _
  rw [(mergeGroup_eq (by decide) src _).2.2, (mergeGroup_eq (by decide) src _).2.2,
    (mergeGroup_eq (by decide) src _).2.2]
  cases hf : src.has f with
  | false => simp
  | true => rcases mem_groups f with h | h | h <;> simp [h]

theorem unknownFields_mergeFrom (m src : GeneratedMessage) :
    (m.mergeFrom src).unknownFields = m.unknownFields ++ src.unknownFields := by
  show (src.mergeGroup (src.mergeGroup (src.mergeGroup m (0xff <<< 0) Field.first) (0xff <<< 8)
    Field.second) (0xff <<< 16) Field.third).unknownFields ++ src.unknownFields = _
  rw [(mergeGroup_eq (by decide) src _).1, (mergeGroup_eq (by decide) src _).1,
    (mergeGroup_eq (by decide) src _).1]

theorem has_clear (m : GeneratedMessage) (f : Field) : m.clear.has f = false := by
  rw [has_eq]
  exact BitVec.getLsbD_zero

/-- `Clear` empties the strings of the fields that are set, and no others. -/
theorem value_clear (m : GeneratedMessage) (f : Field) :
    m.clear.value f = if m.has f then [] else m.value f := by
  show (((m.clearGroup 255 Field.first).clearGroup 65280 Field.second).clearGroup 4128768
    Field.third).value f = _
  rw [(clearGroup_eq (by decide) _).2, (clearGroup_eq (by decide) _).2,
    (clearGroup_eq (by decide) m).2, (clearGroup_eq (by decide) _).1,
    (clearGroup_eq (by decide) m).1]
  cases hf : m.has f with
  | false => simp
  | true => rcases mem_groups f with h | h | h <;> simp [h]

/-! ## The optional strings of a message -/

/-- Two accounts of the optional strings of a message. -/
theorem toMessage_eq {m : GeneratedMessage} {c : CiaMessage}
    (hget : ∀ f, c.get f = if m.has f then some (m.value f) else none)
    (hu : m.unknownFields = c.unknownFields) : m.toMessage = c :=
  CiaMessage.ext (funext fun f => (hget f).symm) hu

theorem has_eq_isSome (m : GeneratedMessage) (f : Field) :
    m.has f = (m.toMessage.get f).isSome := by
  simp only [toMessage]
  cases m.has f <;> rfl

/-- `type()` … answer as if they looked at the bits. -/
theorem Valid.value_eq {m : GeneratedMessage} (hm : m.Valid) (f : Field) :
    m.value f = m.toMessage.value f := by
  simp only [CiaMessage.value, toMessage]
  cases hf : m.has f with
  | false => simpa using hm f hf
  | true => rfl

theorem valid_sharedCtor : sharedCtor.Valid := fun _ _ => rfl

theorem toMessage_sharedCtor : sharedCtor.toMessage = CiaMessage.empty :=
  toMessage_eq (fun f => by cases f <;> rfl) rfl

/-- `Clear` leaves the string of a field that is not set. -/
theorem Valid.clear {m : GeneratedMessage} (hm : m.Valid) : m.clear.Valid := by
  intro f _
  rw [value_clear]
  split
  · rfl
  · next h => exact hm f (Bool.eq_false_of_not_eq_true h)

theorem toMessage_clear (m : GeneratedMessage) : m.clear.toMessage = CiaMessage.empty :=
  toMessage_eq (fun f => by rw [has_clear]; rfl) rfl

theorem Valid.set {m : GeneratedMessage} (hm : m.Valid) (f : Field) (s : Bytes) :
    (m.set f s).Valid := by
  intro g hg
  rw [has_set, Bool.or_eq_false_iff, decide_eq_false_iff_not] at hg
  rw [value_set, if_neg hg.1]
  exact hm g hg.2

theorem toMessage_set (m : GeneratedMessage) (f : Field) (s : Bytes) :
    (m.set f s).toMessage = m.toMessage.set f s := by
  refine toMessage_eq (fun g => ?_) rfl
  rw [has_set, value_set]
  by_cases hg : g = f
  · simp [hg]
  · simp [CiaMessage.set_get_ne _ _ hg, hg, toMessage]

theorem Valid.clearField {m : GeneratedMessage} (hm : m.Valid) (f : Field) :
    (m.clearField f).Valid := by
  intro g hg
  rw [GeneratedMessage.clearField, has_clearHas, has_clearString] at hg
  rw [GeneratedMessage.clearField, value_clearHas, value_clearString]
  split
  · rfl
  · next hne =>
    rw [decide_eq_false hne] at hg
    exact hm g hg

theorem toMessage_clearField (m : GeneratedMessage) (f : Field) :
    (m.clearField f).toMessage = m.toMessage.clearField f := by
  refine toMessage_eq (fun g => ?_) (unknownFields_clearString m f)
  rw [GeneratedMessage.clearField, has_clearHas, has_clearString, value_clearHas,
    value_clearString]
  by_cases hg : g = f
  · simp [hg, CiaMessage.clearField]
  · simp [hg, CiaMessage.clearField, toMessage]

theorem Valid.mergeFrom {m src : GeneratedMessage} (hm : m.Valid) :
    (m.mergeFrom src).Valid := by
  intro f hf
  rw [has_mergeFrom, Bool.or_eq_false_iff] at hf
  rw [value_mergeFrom, hf.1]
  exact hm f hf.2

theorem toMessage_mergeFrom (m src : GeneratedMessage) :
    (m.mergeFrom src).toMessage = m.toMessage.merge src.toMessage := by
  refine toMessage_eq (fun f => ?_) (unknownFields_mergeFrom m src)
  rw [has_mergeFrom, value_mergeFrom]
  simp only [CiaMessage.merge, toMessage]
  cases src.has f <;> simp

theorem empty_merge (c : CiaMessage) : CiaMessage.empty.merge c = c :=
  CiaMessage.ext (funext fun f => by simp [CiaMessage.merge, CiaMessage.empty])
    (by simp [CiaMessage.merge, CiaMessage.empty])

theorem Valid.copyFrom {m src : GeneratedMessage} (hm : m.Valid) : (m.copyFrom src).Valid :=
  hm.clear.mergeFrom

/-- A copy has nothing left of what was there. -/
theorem toMessage_copyFrom (m src : GeneratedMessage) :
    (m.copyFrom src).toMessage = src.toMessage := by
  rw [copyFrom, toMessage_mergeFrom, toMessage_clear, empty_merge]

theorem isInitialized_toMessage (m : GeneratedMessage) :
    m.isInitialized = m.toMessage.isInitialized := by
  rw [isInitialized_eq, has_eq_isSome]
  rfl

theorem fieldSize_toMessage (m : GeneratedMessage) (f : Field) :
    m.fieldSize f = m.toMessage.fieldSize f := by
  simp only [fieldSize, CiaMessage.fieldSize, toMessage]
  cases m.has f <;> rfl

theorem byteSize_toMessage (m : GeneratedMessage) : m.byteSize = m.toMessage.byteSize := by
  have hall : Field.all = Field.first ++ Field.second ++ Field.third := rfl
  rw [byteSize, groupSize_eq (by decide), groupSize_eq (by decide), groupSize_eq (by decide),
    CiaMessage.byteSize, hall, List.map_append, List.map_append, List.sum_append, List.sum_append,
    funext (fieldSize_toMessage m)]
  rfl

theorem serialize_toMessage (m : GeneratedMessage) : m.serialize = m.toMessage.serialize := by
  rw [serialize, CiaMessage.serialize]
  congr 3
  refine funext fun f => ?_
  simp only [CiaMessage.serializeField, toMessage]
  cases m.has f <;> rfl

end GeneratedMessage

end CiaServer.Net
