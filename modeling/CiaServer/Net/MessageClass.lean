import CiaServer.Machine.Answers
import CiaServer.Net.CodedStream

/-!
# Programs that use messages

A `MessageClass` is what a program can do with messages, `MessageClass.call` what
a call does to all the messages the program has. The generated class and the
messages of optional strings are two of them, and no sequence of calls tells
one from the other (`generatedClass_answers`): not the bits and the strings
kept apart, not the masks, not the strings that `Clear` leaves, not the jumps
of the parser, not what was in a message before.

Mirroring notes:
- A message is known by the place where it was made; destructors are left out.
- `MergeFrom` checks that it is given another message and ends the program
  otherwise; `CopyFrom` and `Swap` then do nothing.
- A failed `ParseFromArray` is the end as well: what it leaves is not modelled.
-/

namespace CiaServer.Net

open Machine

/-- What can be done with messages. -/
structure MessageClass (μ : Type) where
  new : μ
  /-- The copy constructor. -/
  copy : μ → μ
  has : μ → Field → Bool
  value : μ → Field → Bytes
  set : μ → Field → Bytes → μ
  clearField : μ → Field → μ
  clear : μ → μ
  mergeFrom : μ → μ → μ
  copyFrom : μ → μ → μ
  isInitialized : μ → Bool
  byteSize : μ → Nat
  serialize : μ → Bytes
  parseFromArray : μ → Bytes → Option μ

/-- A call; a message is the number of its place. -/
inductive MessageCall where
  | new
  | copy (i : Nat)
  | has (i : Nat) (f : Field)
  | value (i : Nat) (f : Field)
  | set (i : Nat) (f : Field) (s : Bytes)
  | clearField (i : Nat) (f : Field)
  | clear (i : Nat)
  | mergeFrom (i j : Nat)
  | copyFrom (i j : Nat)
  | swap (i j : Nat)
  | isInitialized (i : Nat)
  | byteSize (i : Nat)
  | serialize (i : Nat)
  | parseFromArray (i : Nat) (bs : Bytes)

/-- What a call answers. -/
inductive MessageAnswer where
  | done
  | bool (b : Bool)
  | size (n : Nat)
  | bytes (bs : Bytes)
  deriving DecidableEq

variable {μ ν : Type}

/-- What a call does to the messages of the program. -/
def MessageClass.call (C : MessageClass μ) (ms : List μ) :
    MessageCall → Option (List μ × MessageAnswer)
  | .new => some (ms ++ [C.new], .done)
  | .copy i => onObject ms i fun m => some (ms ++ [C.copy m], .done)
  | .has i f => onObject ms i fun m => some (ms, .bool (C.has m f))
  | .value i f => onObject ms i fun m => some (ms, .bytes (C.value m f))
  | .set i f s => onObject ms i fun m => some (ms.set i (C.set m f s), .done)
  | .clearField i f => onObject ms i fun m => some (ms.set i (C.clearField m f), .done)
  | .clear i => onObject ms i fun m => some (ms.set i (C.clear m), .done)
  | .mergeFrom i j =>
    onObject ms i fun m => onObject ms j fun src =>
      if i = j then none else some (ms.set i (C.mergeFrom m src), .done)
  | .copyFrom i j =>
    onObject ms i fun m => onObject ms j fun src =>
      if i = j then some (ms, .done) else some (ms.set i (C.copyFrom m src), .done)
  | .swap i j =>
    onObject ms i fun m => onObject ms j fun other =>
      if i = j then some (ms, .done) else some ((ms.set i other).set j m, .done)
  | .isInitialized i => onObject ms i fun m => some (ms, .bool (C.isInitialized m))
  | .byteSize i => onObject ms i fun m => some (ms, .size (C.byteSize m))
  | .serialize i => onObject ms i fun m => some (ms, .bytes (C.serialize m))
  | .parseFromArray i bs =>
    onObject ms i fun m => (C.parseFromArray m bs).map fun m' => (ms.set i m', .bool true)

/-- The generated class. -/
def generatedClass (r : CodedInput) : MessageClass GeneratedMessage where
  new := GeneratedMessage.sharedCtor
  copy := GeneratedMessage.sharedCtor.mergeFrom
  has := GeneratedMessage.has
  value := GeneratedMessage.value
  set := GeneratedMessage.set
  clearField := GeneratedMessage.clearField
  clear := GeneratedMessage.clear
  mergeFrom := GeneratedMessage.mergeFrom
  copyFrom := GeneratedMessage.copyFrom
  isInitialized := GeneratedMessage.isInitialized
  byteSize := GeneratedMessage.byteSize
  serialize := GeneratedMessage.serialize
  parseFromArray := GeneratedMessage.parseFromArray r

/-- What the class is there for: 22 strings, each of them set or not. -/
def optionalStrings (skipField : Nat → Bytes → Option (Bytes × Bytes)) :
    MessageClass CiaMessage where
  new := CiaMessage.empty
  copy m := m
  has m f := (m.get f).isSome
  value := CiaMessage.value
  set := CiaMessage.set
  clearField := CiaMessage.clearField
  clear _ := CiaMessage.empty
  mergeFrom := CiaMessage.merge
  copyFrom _ src := src
  isInitialized := CiaMessage.isInitialized
  byteSize := CiaMessage.byteSize
  serialize := CiaMessage.serialize
  parseFromArray _ := CiaMessage.parseFromArray skipField

/-! ## One class in the place of another -/

/-- `C` does to its messages what `D` does to those that `Q` relates to them. -/
structure MessageClass.Refines (C : MessageClass μ) (D : MessageClass ν) (Q : μ → ν → Prop) :
    Prop where
  new : Q C.new D.new
  copy : ∀ {a b}, Q a b → Q (C.copy a) (D.copy b)
  has : ∀ {a b}, Q a b → ∀ f, C.has a f = D.has b f
  value : ∀ {a b}, Q a b → ∀ f, C.value a f = D.value b f
  set : ∀ {a b}, Q a b → ∀ f s, Q (C.set a f s) (D.set b f s)
  clearField : ∀ {a b}, Q a b → ∀ f, Q (C.clearField a f) (D.clearField b f)
  clear : ∀ {a b}, Q a b → Q (C.clear a) (D.clear b)
  mergeFrom : ∀ {a b a' b'}, Q a b → Q a' b' → Q (C.mergeFrom a a') (D.mergeFrom b b')
  copyFrom : ∀ {a b a' b'}, Q a b → Q a' b' → Q (C.copyFrom a a') (D.copyFrom b b')
  isInitialized : ∀ {a b}, Q a b → C.isInitialized a = D.isInitialized b
  byteSize : ∀ {a b}, Q a b → C.byteSize a = D.byteSize b
  serialize : ∀ {a b}, Q a b → C.serialize a = D.serialize b
  parseFromArray : ∀ {a b}, Q a b → ∀ bs,
    (C.parseFromArray a bs = none ∧ D.parseFromArray b bs = none) ∨
      ∃ a' b', C.parseFromArray a bs = some a' ∧ D.parseFromArray b bs = some b' ∧ Q a' b'

/-- One call: the same answer, and the messages are related again. -/
theorem MessageClass.Refines.call {C : MessageClass μ} {D : MessageClass ν} {Q : μ → ν → Prop}
    (h : C.Refines D Q) {as : List μ} {bs : List ν} (hs : List.Forall₂ Q as bs)
    (c : MessageCall) : Alike (List.Forall₂ Q) (C.call as c) (D.call bs c) := by
  cases c with
  | new => exact ⟨rfl, List.rel_append hs (List.Forall₂.cons h.new List.Forall₂.nil)⟩
  | copy i =>
    refine alike_onObject hs i fun a b hab => ⟨rfl, ?_⟩
    exact List.rel_append hs (List.Forall₂.cons (h.copy hab) List.Forall₂.nil)
  | has i f => exact alike_onObject hs i fun a b hab => ⟨congrArg _ (h.has hab f), hs⟩
  | value i f => exact alike_onObject hs i fun a b hab => ⟨congrArg _ (h.value hab f), hs⟩
  | set i f s => exact alike_onObject hs i fun a b hab => ⟨rfl, forall₂_set hs i (h.set hab f s)⟩
  | clearField i f =>
    exact alike_onObject hs i fun a b hab => ⟨rfl, forall₂_set hs i (h.clearField hab f)⟩
  | clear i => exact alike_onObject hs i fun a b hab => ⟨rfl, forall₂_set hs i (h.clear hab)⟩
  | mergeFrom i j =>
    refine alike_onObject hs i fun a b hab => alike_onObject hs j fun a' b' hab' => ?_
    split
    · exact trivial
    · exact ⟨rfl, forall₂_set hs i (h.mergeFrom hab hab')⟩
  | copyFrom i j =>
    refine alike_onObject hs i fun a b hab => alike_onObject hs j fun a' b' hab' => ?_
    split
    · exact ⟨rfl, hs⟩
    · exact ⟨rfl, forall₂_set hs i (h.copyFrom hab hab')⟩
  | swap i j =>
    refine alike_onObject hs i fun a b hab => alike_onObject hs j fun a' b' hab' => ?_
    split
    · exact ⟨rfl, hs⟩
    · exact ⟨rfl, forall₂_set (forall₂_set hs i hab') j hab⟩
  | isInitialized i =>
    exact alike_onObject hs i fun a b hab => ⟨congrArg _ (h.isInitialized hab), hs⟩
  | byteSize i => exact alike_onObject hs i fun a b hab => ⟨congrArg _ (h.byteSize hab), hs⟩
  | serialize i => exact alike_onObject hs i fun a b hab => ⟨congrArg _ (h.serialize hab), hs⟩
  | parseFromArray i bs =>
    refine alike_onObject hs i fun a b hab => ?_
    rcases h.parseFromArray hab bs with ⟨ha, hb⟩ | ⟨a', b', ha, hb, hab'⟩
    · rw [ha, hb]
      exact trivial
    · rw [ha, hb]
      exact ⟨rfl, forall₂_set hs i hab'⟩

/-! ## The generated class -/

open GeneratedMessage in
/-- The members of the class stand for optional strings, as long as the strings
of unset fields are empty. -/
theorem generatedClass_refines {r : CodedInput} (hr : r.Lawful) :
    (generatedClass r).Refines (optionalStrings r.skipField)
      fun m c => m.Valid ∧ m.toMessage = c where
  new := ⟨valid_sharedCtor, toMessage_sharedCtor⟩
  copy := by
    rintro a _ ⟨_, rfl⟩
    refine ⟨valid_sharedCtor.mergeFrom, (toMessage_mergeFrom _ a).trans ?_⟩
    rw [toMessage_sharedCtor, empty_merge]
    rfl
  has := by
    rintro a _ ⟨_, rfl⟩ f
    exact has_eq_isSome a f
  value := by
    rintro a _ ⟨ha, rfl⟩ f
    exact ha.value_eq f
  set := by
    rintro a _ ⟨ha, rfl⟩ f s
    exact ⟨ha.set f s, toMessage_set a f s⟩
  clearField := by
    rintro a _ ⟨ha, rfl⟩ f
    exact ⟨ha.clearField f, toMessage_clearField a f⟩
  clear := by
    rintro a _ ⟨ha, rfl⟩
    exact ⟨ha.clear, toMessage_clear a⟩
  mergeFrom := by
    rintro a _ a' _ ⟨ha, rfl⟩ ⟨_, rfl⟩
    exact ⟨ha.mergeFrom, toMessage_mergeFrom a a'⟩
  copyFrom := by
    rintro a _ a' _ ⟨ha, rfl⟩ ⟨_, rfl⟩
    exact ⟨ha.copyFrom, toMessage_copyFrom a a'⟩
  isInitialized := by
    rintro a _ ⟨_, rfl⟩
    exact isInitialized_toMessage a
  byteSize := by
    rintro a _ ⟨_, rfl⟩
    exact byteSize_toMessage a
  serialize := by
    rintro a _ ⟨_, rfl⟩
    exact serialize_toMessage a
  parseFromArray := by
    rintro a _ ⟨ha, rfl⟩ bs
    rcases parseFromArray_cases hr a bs with hnone | ⟨a', hp, hplain⟩
    · exact Or.inl hnone
    · exact Or.inr ⟨a', a'.toMessage, hp, hplain, ha.parseFromArray hp, rfl⟩

/-- **The generated class is a class of optional strings**: whatever calls a
program makes of its messages, the answers are the same. -/
theorem generatedClass_answers {r : CodedInput} (hr : r.Lawful) (calls : List MessageCall) :
    answers (generatedClass r).call [] calls
      = answers (optionalStrings r.skipField).call [] calls :=
  answers_eq (fun _ _ c hs => (generatedClass_refines hr).call hs c) List.Forall₂.nil

/-- A message that is set, copied, cleared, parsed into and merged. -/
theorem generatedClass_answers_merge :
    answers (generatedClass arrayInput).call []
        [.new, .set 0 .type [0x41], .set 0 .brand [0x42], .copy 0, .clear 0, .value 0 .brand,
          .parseFromArray 0 [10, 1, 0x43], .mergeFrom 1 0, .serialize 1]
      = answers (optionalStrings Wire.skipField).call []
        [.new, .set 0 .type [0x41], .set 0 .brand [0x42], .copy 0, .clear 0, .value 0 .brand,
          .parseFromArray 0 [10, 1, 0x43], .mergeFrom 1 0, .serialize 1] :=
  generatedClass_answers arrayInput_lawful _

end CiaServer.Net
