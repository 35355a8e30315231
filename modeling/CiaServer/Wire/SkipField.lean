import CiaServer.Wire.Varint

/-!
# Fields of no known number

A reader that meets a field it does not know keeps it: `SkipField` returns the
field as it is written anew, and what follows. `SkipsFields` is what such a
reader owes to those who rely on it: it takes from its input what it keeps, it
does not look past the field, and reads what it has kept the same again.

`skipField` is such a reader, for all wire types but groups (`skipField_skips`).
-/

namespace Wire

/-- A reader of unknown fields, given the tag and what follows it. -/
structure SkipsFields (skipField : Nat → List UInt8 → Option (List UInt8 × List UInt8)) :
    Prop where
  /-- It does not look past the field. -/
  append : ∀ {tag bs u bs'}, skipField tag bs = some (u, bs') → ∀ cs,
    skipField tag (bs ++ cs) = some (u, bs' ++ cs)
  /-- The field is written anew in no more bytes. -/
  size : ∀ {tag bs u bs'}, tag < 2 ^ 32 → skipField tag bs = some (u, bs') →
    bs'.length ≤ bs.length ∧ u.length + bs'.length ≤ varintSize32 tag + bs.length
  /-- What was kept reads the same again. -/
  again : ∀ {tag bs u bs'}, tag < 2 ^ 32 → skipField tag bs = some (u, bs') →
    ∃ u', decodeVarint32 u = some (tag, u') ∧ skipField tag u' = some (u, [])

/-- Takes `n` bytes. -/
def takeBytes (n : Nat) (bs : List UInt8) : Option (List UInt8 × List UInt8) :=
  if n ≤ bs.length then some (bs.take n, bs.drop n) else none

/-- What follows a tag, as it is written anew: a varint of 64 bits, 8 bytes, a
string, 4 bytes. -/
def skipPayload (wireType : Nat) (bs : List UInt8) : Option (List UInt8 × List UInt8) :=
  match wireType with
  | 0 => (decodeGroups 9 bs).map fun p => (encodeVarint (p.1 % 2 ^ 64), p.2)
  | 1 => takeBytes 8 bs
  | 2 => (decodeString bs).map fun p => (encodeVarint p.1.length ++ p.1, p.2)
  | 5 => takeBytes 4 bs
  | _ => none

/-- `WireFormat::SkipField`, without groups. -/
def skipField (tag : Nat) (bs : List UInt8) : Option (List UInt8 × List UInt8) :=
  (skipPayload (tag % 8) bs).map fun p => (encodeVarint tag ++ p.1, p.2)

/-! ## Readers that do not look past what they read -/

theorem decodeGroups_append : ∀ {k n : Nat} {bs bs' : List UInt8},
    decodeGroups k bs = some (n, bs') → ∀ cs, decodeGroups k (bs ++ cs) = some (n, bs' ++ cs)
  | _, _, [], _, h, _ => by simp [decodeGroups] at h
  | 0, _, b :: bs, _, h, cs => by
    unfold decodeGroups at h
    rw [List.cons_append, decodeGroups]
    split at h <;> cases h
    next hlt => exact if_pos hlt
  | k + 1, _, b :: bs, _, h, cs => by
    unfold decodeGroups at h
    rw [List.cons_append, decodeGroups]
    split at h
    · next hlt =>
      cases h
      exact if_pos hlt
    · next hge =>
      simp only [Option.map_eq_some_iff] at h
      obtain ⟨⟨v, r⟩, hg, he⟩ := h
      cases he
      rw [if_neg hge, decodeGroups_append hg cs]
      rfl

theorem decodeVarint32_append {n : Nat} {bs bs' : List UInt8}
    (h : decodeVarint32 bs = some (n, bs')) (cs : List UInt8) :
    decodeVarint32 (bs ++ cs) = some (n, bs' ++ cs) := by
  simp only [decodeVarint32, Option.map_eq_some_iff] at h
  obtain ⟨⟨v, r⟩, hg, he⟩ := h
  cases he
  rw [decodeVarint32, decodeGroups_append hg cs]
  rfl

theorem takeBytes_append {n : Nat} {s bs bs' : List UInt8} (h : takeBytes n bs = some (s, bs'))
    (cs : List UInt8) : takeBytes n (bs ++ cs) = some (s, bs' ++ cs) := by
  unfold takeBytes at h ⊢
  split at h <;> cases h
  next hle =>
    rw [if_pos (by rw [List.length_append]; omega), List.take_append_of_le_length hle,
      List.drop_append_of_le_length hle]

theorem decodeString_append {s bs bs' : List UInt8} (h : decodeString bs = some (s, bs'))
    (cs : List UInt8) : decodeString (bs ++ cs) = some (s, bs' ++ cs) := by
  unfold decodeString at h ⊢
  split at h
  · cases h
  · next n r hv =>
    rw [decodeVarint32_append hv cs]
    exact takeBytes_append h cs

theorem length_of_takeBytes {n : Nat} {s bs bs' : List UInt8}
    (h : takeBytes n bs = some (s, bs')) : s.length = n ∧ n + bs'.length = bs.length := by
  unfold takeBytes at h
  split at h <;> cases h
  next hle =>
    rw [List.length_take, List.length_drop]
    omega

theorem takeBytes_self (s : List UInt8) : takeBytes s.length s = some (s, []) := by
  rw [takeBytes, if_pos (Nat.le_refl _), List.take_length, List.drop_length]

/-! ## Unknown fields -/

theorem skipPayload_append {w : Nat} {u bs bs' : List UInt8}
    (h : skipPayload w bs = some (u, bs')) (cs : List UInt8) :
    skipPayload w (bs ++ cs) = some (u, bs' ++ cs) := by
  unfold skipPayload at h ⊢
  split at h
  · simp only [Option.map_eq_some_iff] at h ⊢
    obtain ⟨⟨v, r⟩, hg, he⟩ := h
    cases he
    exact ⟨(v, r ++ cs), decodeGroups_append hg cs, rfl⟩
  · exact takeBytes_append h cs
  · simp only [Option.map_eq_some_iff] at h ⊢
    obtain ⟨⟨s, r⟩, hg, he⟩ := h
    cases he
    exact ⟨(s, r ++ cs), decodeString_append hg cs, rfl⟩
  · exact takeBytes_append h cs
  · cases h

/-- The payload is written anew in no more bytes, and read the same again. -/
theorem skipPayload_spec {w : Nat} {u bs bs' : List UInt8} (h : skipPayload w bs = some (u, bs')) :
    u.length + bs'.length ≤ bs.length ∧ skipPayload w u = some (u, []) := by
  unfold skipPayload at h ⊢
  split at h
  · simp only [Option.map_eq_some_iff] at h
    obtain ⟨⟨v, r⟩, hg, he⟩ := h
    cases he
    obtain ⟨j, hlen, hv⟩ := lt_of_decodeGroups hg
    have hle : (encodeVarint (v % 2 ^ 64)).length ≤ j + 1 :=
      length_encodeGroups_le (Nat.lt_of_le_of_lt (Nat.mod_le v (2 ^ 64)) hv)
    have hlt : v % 2 ^ 64 < 2 ^ 64 := Nat.mod_lt v (by decide)
    have hback := decodeGroups_encodeGroups (k := 9) (n := v % 2 ^ 64) (by omega) []
    rw [List.append_nil] at hback
    refine ⟨by dsimp only at hlen ⊢; omega, ?_⟩
    rw [encodeVarint, hback, Option.map_some, Nat.mod_mod]
    rfl
  · obtain ⟨hs, hlen⟩ := length_of_takeBytes h
    exact ⟨by omega, hs ▸ takeBytes_self u⟩
  · simp only [Option.map_eq_some_iff] at h
    obtain ⟨⟨s, r⟩, hg, he⟩ := h
    cases he
    obtain ⟨hlt, _, hlen⟩ := size_of_decodeString hg
    have hback := decodeString_encode hlt []
    rw [List.append_nil] at hback
    refine ⟨?_, by rw [hback]; rfl⟩
    rw [List.length_append, length_encodeVarint hlt]
    exact hlen
  · obtain ⟨hs, hlen⟩ := length_of_takeBytes h
    exact ⟨by omega, hs ▸ takeBytes_self u⟩
  · cases h

/-- **The reader skips fields.** -/
theorem skipField_skips : SkipsFields skipField where
  append := by
    intro tag bs u bs' h cs
    simp only [skipField, Option.map_eq_some_iff] at h ⊢
    obtain ⟨⟨p, r⟩, hp, he⟩ := h
    cases he
    exact ⟨(p, r ++ cs), skipPayload_append hp cs, rfl⟩
  size := by
    intro tag bs u bs' htag h
    simp only [skipField, Option.map_eq_some_iff] at h
    obtain ⟨⟨p, r⟩, hp, he⟩ := h
    cases he
    obtain ⟨hlen, _⟩ := skipPayload_spec hp
    rw [List.length_append, length_encodeVarint htag]
    exact ⟨by dsimp only at hlen ⊢; omega, by dsimp only at hlen ⊢; omega⟩
  again := by
    intro tag bs u bs' htag h
    simp only [skipField, Option.map_eq_some_iff] at h
    obtain ⟨⟨p, r⟩, hp, he⟩ := h
    cases he
    obtain ⟨_, hback⟩ := skipPayload_spec hp
    refine ⟨p, decodeVarint32_encodeVarint htag p, ?_⟩
    rw [skipField, hback]
    rfl

end Wire
