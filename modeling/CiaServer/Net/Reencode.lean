import CiaServer.Net.ChatMessage
import CiaServer.Net.CodedStream
import CiaServer.Wire.SkipField

/-!
# Parsing what was put together, and sending on what was parsed

The parser is a loop, and `readField` is what it does in one round. What one
round says of the bytes it takes, the whole loop says of all of them:

- it does not look past a field, so that parsing one array behind another is
  `MergeFrom` (`parse_append`);
- a field takes no more bytes written anew than it took, so that a message that
  came in a frame can be sent on in one (`sendOn`), unknown fields and all, and
  the peer reads the same message.
-/

namespace CiaServer.Net

open Wire

namespace CiaMessage

/-- One round of the parser: a tag and its field. -/
def readField (skipField : Nat → Bytes → Option (Bytes × Bytes)) (m : CiaMessage) (bs : Bytes) :
    Option (CiaMessage × Bytes) :=
  match decodeVarint32 bs with
  | none => none
  | some (tag, bs') =>
    if tag = 0 ∨ tag % 8 = 4 then none
    else match Field.ofTag tag with
      | some f => (decodeString bs').map fun p => (m.set f p.1, p.2)
      | none =>
        (skipField tag bs').map fun p => ({ m with unknownFields := m.unknownFields ++ p.1 }, p.2)

variable {skipField : Nat → Bytes → Option (Bytes × Bytes)}

theorem mergePartial_succ (k : Nat) (m : CiaMessage) {bs : Bytes} (hbs : bs ≠ []) :
    mergePartial skipField (k + 1) m bs
      = (readField skipField m bs).bind fun p => mergePartial skipField k p.1 p.2 := by
  cases bs with
  | nil => exact absurd rfl hbs
  | cons b bs =>
    simp only [mergePartial, readField]
    cases hv : decodeVarint32 (b :: bs) with
    | none => rfl
    | some p =>
      obtain ⟨tag, bs'⟩ := p
      dsimp only
      split
      · rfl
      · cases hf : Field.ofTag tag with
        | some f =>
          dsimp only
          cases decodeString bs' <;> rfl
        | none =>
          dsimp only
          cases skipField tag bs' <;> rfl

/-- What a round can do: it reads a string, or keeps an unknown field. -/
theorem readField_cases {m m' : CiaMessage} {bs bs' : Bytes}
    (h : readField skipField m bs = some (m', bs')) :
    ∃ tag bs₁, decodeVarint32 bs = some (tag, bs₁) ∧ ¬(tag = 0 ∨ tag % 8 = 4) ∧
      ((∃ f s, Field.ofTag tag = some f ∧ decodeString bs₁ = some (s, bs') ∧ m' = m.set f s) ∨
        ∃ u, Field.ofTag tag = none ∧ skipField tag bs₁ = some (u, bs') ∧
          m' = { m with unknownFields := m.unknownFields ++ u }) := by
  unfold readField at h
  split at h
  · cases h
  · next tag bs₁ hv =>
    split at h
    · cases h
    · next hok =>
      refine ⟨tag, bs₁, hv, hok, ?_⟩
      split at h
      · next f hf =>
        obtain ⟨⟨s, r⟩, hs, he⟩ := Option.map_eq_some_iff.mp h
        cases he
        exact Or.inl ⟨f, s, hf, hs, rfl⟩
      · next hf =>
        obtain ⟨⟨u, r⟩, hu, he⟩ := Option.map_eq_some_iff.mp h
        cases he
        exact Or.inr ⟨u, hf, hu, rfl⟩

/-! ## What a round takes from the input -/

/-- It takes at least a byte. -/
theorem length_readField (hskip : SkipsFields skipField) {m m' : CiaMessage} {bs bs' : Bytes}
    (h : readField skipField m bs = some (m', bs')) : bs'.length < bs.length := by
  obtain ⟨tag, bs₁, hv, _, ⟨f, s, _, hs, _⟩ | ⟨u, _, hu, _⟩⟩ := readField_cases h
  · obtain ⟨_, _, hlen⟩ := size_of_decodeVarint32 hv
    obtain ⟨_, _, hslen⟩ := size_of_decodeString hs
    omega
  · obtain ⟨htag, _, hlen⟩ := size_of_decodeVarint32 hv
    obtain ⟨hulen, _⟩ := hskip.size htag hu
    omega

/-- It does not look past the field. -/
theorem readField_append (hskip : SkipsFields skipField) {m m' : CiaMessage} {bs bs' : Bytes}
    (h : readField skipField m bs = some (m', bs')) (cs : Bytes) :
    readField skipField m (bs ++ cs) = some (m', bs' ++ cs) := by
  obtain ⟨tag, bs₁, hv, hok, ⟨f, s, hf, hs, rfl⟩ | ⟨u, hf, hu, rfl⟩⟩ := readField_cases h
  · simp only [readField, decodeVarint32_append hv cs, if_neg hok, hf, decodeString_append hs cs,
      Option.map_some]
  · simp only [readField, decodeVarint32_append hv cs, if_neg hok, hf, hskip.append hu cs,
      Option.map_some]

/-- Setting a field adds its size, less what was there. -/
theorem byteSize_set_le (m : CiaMessage) (f : Field) (s : Bytes) :
    (m.set f s).byteSize ≤ m.byteSize + (f.tagSize + stringSize s) := by
  have hother : ∀ g, g ≠ f → (m.set f s).fieldSize g = m.fieldSize g := by
    intro g hg
    simp only [fieldSize, set_get_ne _ _ hg]
  have hnew : (m.set f s).fieldSize f = f.tagSize + stringSize s := by
    simp only [fieldSize, set_get_self]
  have h := sum_map_add hother (show Field.all.Nodup by decide) (mem_all f)
  rw [hnew] at h
  rw [byteSize, byteSize, set_unknownFields]
  omega

/-- The message grows by no more than was read. -/
theorem byteSize_readField (hskip : SkipsFields skipField) {m m' : CiaMessage} {bs bs' : Bytes}
    (h : readField skipField m bs = some (m', bs')) :
    m'.byteSize + bs'.length ≤ m.byteSize + bs.length := by
  obtain ⟨tag, bs₁, hv, _, ⟨f, s, hf, hs, rfl⟩ | ⟨u, _, hu, rfl⟩⟩ := readField_cases h
  · obtain ⟨_, _, hlen⟩ := size_of_decodeVarint32 hv
    obtain ⟨_, _, hslen⟩ := size_of_decodeString hs
    have hset := m.byteSize_set_le f s
    -- the tag was not shorter than the one that is written
    have htag : varintSize32 tag = f.tagSize := by
      rw [GeneratedMessage.ofTag_eq_some_iff] at hf
      subst hf
      cases f <;> rfl
    unfold stringSize at hset
    omega
  · obtain ⟨htag, _, hlen⟩ := size_of_decodeVarint32 hv
    obtain ⟨_, hulen⟩ := hskip.size htag hu
    have hsize : byteSize { m with unknownFields := m.unknownFields ++ u }
        = m.byteSize + u.length := by
      rw [byteSize, List.length_append, ← Nat.add_assoc]
      rfl
    rw [hsize]
    omega

/-! ## Merging -/

@[simp] theorem merge_empty (m : CiaMessage) : m.merge empty = m :=
  CiaMessage.ext (funext fun _ => Option.none_or) (List.append_nil _)

theorem merge_set (a b : CiaMessage) (f : Field) (s : Bytes) :
    a.merge (b.set f s) = (a.merge b).set f s := by
  refine CiaMessage.ext (funext fun g => ?_) rfl
  by_cases hg : g = f
  · subst hg
    simp only [merge, set_get_self, Option.some_or]
  · simp only [merge, set_get_ne _ _ hg]

theorem merge_unknown (a b : CiaMessage) (u : Bytes) :
    a.merge { b with unknownFields := b.unknownFields ++ u }
      = { a.merge b with unknownFields := (a.merge b).unknownFields ++ u } :=
  CiaMessage.ext rfl (List.append_assoc ..).symm

/-- A round adds to whatever is there. -/
theorem readField_merge (a m : CiaMessage) (bs : Bytes) :
    readField skipField (a.merge m) bs
      = (readField skipField m bs).map fun p => (a.merge p.1, p.2) := by
  unfold readField
  split
  · rfl
  · next tag bs' _ =>
    split
    · rfl
    · split
      · rw [Option.map_map]
        exact congrArg (fun h => Option.map h _) (funext fun p => by
          rw [Function.comp, merge_set])
      · rw [Option.map_map]
        exact congrArg (fun h => Option.map h _) (funext fun p => by
          rw [Function.comp, merge_unknown])

/-! ## The whole loop -/

/-- One round for each byte is enough. -/
theorem mergePartial_eq_of_le (hskip : SkipsFields skipField) : ∀ {k j : Nat} {m : CiaMessage}
    {bs : Bytes}, bs.length ≤ k → bs.length ≤ j →
      mergePartial skipField k m bs = mergePartial skipField j m bs
  | k, j, m, [], _, _ => by rw [mergePartial_nil, mergePartial_nil]
  | k + 1, j + 1, m, b :: bs, hk, hj => by
    rw [mergePartial_succ k m (List.cons_ne_nil b bs), mergePartial_succ j m (List.cons_ne_nil b bs)]
    cases hr : readField skipField m (b :: bs) with
    | none => rfl
    | some p =>
      have hlen := length_readField hskip hr
      rw [Option.bind_some, Option.bind_some]
      exact mergePartial_eq_of_le hskip (by omega) (by omega)

/-- What has been parsed is behind the parser. -/
theorem mergePartial_append (hskip : SkipsFields skipField) : ∀ {k j : Nat} {m m₁ : CiaMessage}
    {bs : Bytes} (cs : Bytes), bs.length ≤ k → mergePartial skipField k m bs = some m₁ →
      (bs ++ cs).length ≤ j →
      mergePartial skipField j m (bs ++ cs) = mergePartial skipField cs.length m₁ cs
  | k, j, m, m₁, [], cs, _, h, hj => by
    rw [mergePartial_nil] at h
    cases h
    exact mergePartial_eq_of_le hskip hj (Nat.le_refl _)
  | k + 1, j + 1, m, m₁, b :: bs, cs, hk, h, hj => by
    rw [mergePartial_succ k m (List.cons_ne_nil b bs)] at h
    obtain ⟨⟨m', bs'⟩, hr, h⟩ := Option.bind_eq_some_iff.mp h
    have hlen := length_readField hskip hr
    rw [List.cons_append] at hj ⊢
    rw [mergePartial_succ j m (List.cons_ne_nil b (bs ++ cs)), ← List.cons_append,
      readField_append hskip hr cs, Option.bind_some]
    rw [List.length_cons, List.length_append] at hj
    rw [List.length_cons] at hlen hk
    exact mergePartial_append hskip cs (by omega) h (by rw [List.length_append]; omega)

/-- What is parsed is added to what is there. -/
theorem mergePartial_merge (a : CiaMessage) : ∀ {k : Nat} {m : CiaMessage} {bs : Bytes},
    mergePartial skipField k (a.merge m) bs = (mergePartial skipField k m bs).map a.merge
  | k, m, [] => by rw [mergePartial_nil, mergePartial_nil, Option.map_some]
  | 0, m, b :: bs => rfl
  | k + 1, m, b :: bs => by
    rw [mergePartial_succ k _ (List.cons_ne_nil b bs), mergePartial_succ k _ (List.cons_ne_nil b bs),
      readField_merge]
    cases readField skipField m (b :: bs) with
    | none => rfl
    | some p =>
      rw [Option.map_some, Option.bind_some, Option.bind_some]
      exact mergePartial_merge a

/-- A message is no larger than what it was parsed from. -/
theorem byteSize_mergePartial (hskip : SkipsFields skipField) : ∀ {k : Nat} {m m' : CiaMessage}
    {bs : Bytes}, mergePartial skipField k m bs = some m' →
      m'.byteSize ≤ m.byteSize + bs.length
  | k, m, m', [], h => by
    rw [mergePartial_nil] at h
    cases h
    exact Nat.le_add_right _ _
  | k + 1, m, m', b :: bs, h => by
    rw [mergePartial_succ k m (List.cons_ne_nil b bs)] at h
    obtain ⟨⟨m₁, bs₁⟩, hr, h⟩ := Option.bind_eq_some_iff.mp h
    have hle := byteSize_readField hskip hr
    have ih : m'.byteSize ≤ m₁.byteSize + bs₁.length := byteSize_mergePartial hskip h
    omega

/-- An unknown field as it is kept: a parser keeps it, whatever is there. -/
def IsUnknownField (skipField : Nat → Bytes → Option (Bytes × Bytes)) (u : Bytes) : Prop :=
  ∀ m, readField skipField m u = some ({ m with unknownFields := m.unknownFields ++ u }, [])

/-- The unknown fields of a message that was parsed. -/
def ParsedUnknown (skipField : Nat → Bytes → Option (Bytes × Bytes)) (m : CiaMessage) : Prop :=
  ∃ us : List Bytes, m.unknownFields = us.flatten ∧ ∀ u ∈ us, IsUnknownField skipField u

theorem ParsedUnknown.readField (hskip : SkipsFields skipField) {m m' : CiaMessage}
    {bs bs' : Bytes} (hm : ParsedUnknown skipField m)
    (h : CiaMessage.readField skipField m bs = some (m', bs')) : ParsedUnknown skipField m' := by
  obtain ⟨us, hus, hall⟩ := hm
  obtain ⟨tag, bs₁, hv, hok, ⟨f, s, _, _, rfl⟩ | ⟨u, hf, hu, rfl⟩⟩ := readField_cases h
  · exact ⟨us, hus, hall⟩
  · obtain ⟨htag, _, _⟩ := size_of_decodeVarint32 hv
    obtain ⟨u', hv', hu'⟩ := hskip.again htag hu
    refine ⟨us ++ [u], ?_, ?_⟩
    · rw [List.flatten_append, hus, List.flatten_singleton]
    · intro v hv₁
      rcases List.mem_append.mp hv₁ with hv₁ | hv₁
      · exact hall v hv₁
      · rw [List.mem_singleton] at hv₁
        subst hv₁
        intro n
        simp only [CiaMessage.readField, hv', if_neg hok, hf, hu', Option.map_some]

theorem ParsedUnknown.mergePartial (hskip : SkipsFields skipField) : ∀ {k : Nat}
    {m m' : CiaMessage} {bs : Bytes}, ParsedUnknown skipField m →
      CiaMessage.mergePartial skipField k m bs = some m' → ParsedUnknown skipField m'
  | k, m, m', [], hm, h => by
    rw [mergePartial_nil] at h
    cases h
    exact hm
  | k + 1, m, m', b :: bs, hm, h => by
    rw [mergePartial_succ k m (List.cons_ne_nil b bs)] at h
    obtain ⟨⟨m₁, bs₁⟩, hr, h⟩ := Option.bind_eq_some_iff.mp h
    exact (hm.readField hskip hr).mergePartial hskip h

/-- Unknown fields that were kept are kept again. -/
theorem mergePartial_unknown (hskip : SkipsFields skipField) : ∀ {us : List Bytes}
    (m : CiaMessage), (∀ u ∈ us, IsUnknownField skipField u) →
      CiaMessage.mergePartial skipField us.flatten.length m us.flatten
        = some { m with unknownFields := m.unknownFields ++ us.flatten }
  | [], m, _ => by
    rw [List.flatten_nil, mergePartial_nil, List.append_nil]
  | u :: us, m, h => by
    have hu := h u (List.mem_cons_self ..)
    have hne : u ≠ [] := by
      rintro rfl
      cases hu m
    obtain ⟨k, hk⟩ : ∃ k, u.length = k + 1 :=
      ⟨u.length - 1, by have := List.length_pos_iff.mpr hne; omega⟩
    have hone : CiaMessage.mergePartial skipField u.length m u
        = some { m with unknownFields := m.unknownFields ++ u } := by
      rw [hk, mergePartial_succ k m hne, hu m, Option.bind_some]
      exact mergePartial_nil ..
    rw [List.flatten_cons, mergePartial_append hskip _ (Nat.le_refl _) hone (Nat.le_refl _),
      mergePartial_unknown hskip _ fun v hv => h v (List.mem_cons_of_mem _ hv)]
    dsimp only
    rw [List.append_assoc]

/-! ## One array behind another -/

/-- `ParsePartialFromArray`. -/
def parsePartial (skipField : Nat → Bytes → Option (Bytes × Bytes)) (bs : Bytes) :
    Option CiaMessage :=
  mergePartial skipField bs.length empty bs

theorem parseFromArray_eq_some_iff {bs : Bytes} {m : CiaMessage} :
    parseFromArray skipField bs = some m ↔
      parsePartial skipField bs = some m ∧ m.isInitialized = true := by
  unfold parseFromArray parsePartial
  constructor
  · intro h
    split at h
    · cases h
    · next m' hm =>
      split at h <;> cases h
      next hinit => exact ⟨hm, hinit⟩
  · rintro ⟨hm, hinit⟩
    rw [hm]
    exact if_pos hinit

/-- The second array is merged into what the first one gave. -/
theorem parsePartial_append (hskip : SkipsFields skipField) {bs cs : Bytes} {m : CiaMessage}
    (h : parsePartial skipField bs = some m) :
    parsePartial skipField (bs ++ cs) = (parsePartial skipField cs).map m.merge := by
  rw [parsePartial, mergePartial_append hskip cs (Nat.le_refl _) h (Nat.le_refl _)]
  have hmerge : mergePartial skipField cs.length (m.merge empty) cs
      = (parsePartial skipField cs).map m.merge := mergePartial_merge m
  rwa [merge_empty] at hmerge

theorem isInitialized_merge {a b : CiaMessage}
    (h : a.isInitialized = true ∨ b.isInitialized = true) : (a.merge b).isInitialized = true := by
  show ((b.get .type).or (a.get .type)).isSome = true
  rw [Option.isSome_or, Bool.or_eq_true]
  exact h.symm

/-- Arrays one behind the other are merged from the left. -/
theorem parsePartial_flatten (hskip : SkipsFields skipField) : ∀ {pieces : List (Bytes × CiaMessage)}
    {bs : Bytes} {m : CiaMessage}, parsePartial skipField bs = some m →
      (∀ p ∈ pieces, parsePartial skipField p.1 = some p.2) →
      parsePartial skipField (bs ++ (pieces.map Prod.fst).flatten)
        = some ((pieces.map Prod.snd).foldl merge m)
  | [], bs, m, h, _ => by
    rw [List.map_nil, List.flatten_nil, List.append_nil]
    exact h
  | p :: pieces, bs, m, h, hall => by
    have hp : parsePartial skipField (bs ++ p.1) = some (m.merge p.2) := by
      rw [parsePartial_append hskip h, hall p (List.mem_cons_self ..), Option.map_some]
    rw [List.map_cons, List.flatten_cons, ← List.append_assoc]
    exact parsePartial_flatten hskip hp fun q hq => hall q (List.mem_cons_of_mem _ hq)

theorem isInitialized_foldl_merge : ∀ {ms : List CiaMessage} {m : CiaMessage},
    m.isInitialized = true → (ms.foldl merge m).isInitialized = true
  | [], _, h => h
  | a :: ms, m, h => by
    rw [List.foldl_cons]
    exact isInitialized_foldl_merge (isInitialized_merge (Or.inl h))

/-! ## What was parsed can be sent on -/

/-- Of a message that was parsed nothing is lost, unknown fields included. -/
theorem parseFromArray_serialize (hskip : SkipsFields skipField) {m : CiaMessage}
    (hsize : m.byteSize < 2 ^ 31) (hinit : m.isInitialized = true)
    (hu : ParsedUnknown skipField m) : parseFromArray skipField m.serialize = some m := by
  obtain ⟨us, hus, hall⟩ := hu
  obtain ⟨m', hfields, hu', hget⟩ := mergePartial_fields skipField
    (fun f s => length_lt_of_byteSize hsize) Field.all _ empty (Nat.le_refl _)
  have hparse : parsePartial skipField m.serialize = some m := by
    rw [parsePartial, serialize, mergePartial_append hskip _ (Nat.le_refl _) hfields (Nat.le_refl _),
      hus, mergePartial_unknown hskip m' hall]
    refine congrArg some (CiaMessage.ext (funext fun f => ?_) ?_)
    · rw [hget f]
      cases hf : m.get f with
      | none => rw [if_neg (by simp)]; rfl
      | some s => rw [if_pos ⟨mem_all f, rfl⟩]
    · dsimp only
      rw [hu', hus]
      rfl
  exact parseFromArray_eq_some_iff.mpr ⟨hparse, hinit⟩

/-- A message that was parsed is no larger than its array, and its own
serialisation parses to the same message. -/
theorem reencode (hskip : SkipsFields skipField) {bs : Bytes} {m : CiaMessage}
    (hbs : bs.length < 2 ^ 31) (h : parseFromArray skipField bs = some m) :
    m.byteSize ≤ bs.length ∧ parseFromArray skipField m.serialize = some m := by
  obtain ⟨hm, hinit⟩ := parseFromArray_eq_some_iff.mp h
  have hsize := byteSize_mergePartial hskip hm
  rw [byteSize_empty, Nat.zero_add] at hsize
  have hempty : ParsedUnknown skipField empty := ⟨[], rfl, nofun⟩
  exact ⟨hsize, parseFromArray_serialize hskip (by omega) hinit (hempty.mergePartial hskip hm)⟩

end CiaMessage

namespace GeneratedMessage

theorem toMessage_foldl_mergeFrom : ∀ {ms : List GeneratedMessage} {m : GeneratedMessage},
    (ms.foldl mergeFrom m).toMessage = (ms.map toMessage).foldl CiaMessage.merge m.toMessage
  | [], _ => rfl
  | a :: ms, m => by
    rw [List.foldl_cons, List.map_cons, List.foldl_cons, ← toMessage_mergeFrom]
    exact toMessage_foldl_mergeFrom

/-- **Parsing arrays one behind another is merging**: what one message gets of
all of them at once is what `MergeFrom` makes of the messages parsed one by one. -/
theorem parseFromArray_flatten {r : CodedInput} (hr : r.Lawful) (hskip : SkipsFields r.skipField)
    {pieces : List (Bytes × GeneratedMessage)} (hne : pieces ≠ [])
    (h : ∀ p ∈ pieces, ∃ m : GeneratedMessage, m.parseFromArray r p.1 = some p.2)
    (m : GeneratedMessage) :
    ∃ m', m.parseFromArray r (pieces.map Prod.fst).flatten = some m' ∧
      m'.toMessage = ((pieces.map Prod.snd).foldl mergeFrom sharedCtor).toMessage := by
  have hparse : ∀ p ∈ pieces, CiaMessage.parseFromArray r.skipField p.1 = some p.2.toMessage := by
    intro p hp
    obtain ⟨a, ha⟩ := h p hp
    rcases parseFromArray_cases hr a p.1 with ⟨hnone, _⟩ | ⟨m', hsome, hplain⟩
    · cases ha.symm.trans hnone
    · cases ha.symm.trans hsome
      exact hplain
  have hall : CiaMessage.parsePartial r.skipField (pieces.map Prod.fst).flatten
      = some ((pieces.map Prod.snd).foldl mergeFrom sharedCtor).toMessage := by
    have hpieces : ∀ q ∈ pieces.map fun p => (p.1, p.2.toMessage),
        CiaMessage.parsePartial r.skipField q.1 = some q.2 := by
      intro q hq
      obtain ⟨p, hp, rfl⟩ := List.mem_map.mp hq
      exact (CiaMessage.parseFromArray_eq_some_iff.mp (hparse p hp)).1
    have hnil : CiaMessage.parsePartial r.skipField [] = some CiaMessage.empty := rfl
    have hflat := CiaMessage.parsePartial_flatten hskip hnil hpieces
    rw [toMessage_foldl_mergeFrom, toMessage_sharedCtor]
    simpa only [List.nil_append, List.map_map, Function.comp_def] using hflat
  have hinit : ((pieces.map Prod.snd).foldl mergeFrom sharedCtor).toMessage.isInitialized
      = true := by
    cases pieces with
    | nil => exact absurd rfl hne
    | cons p pieces =>
      have hp := (CiaMessage.parseFromArray_eq_some_iff.mp (hparse p (List.mem_cons_self ..))).2
      rw [toMessage_foldl_mergeFrom, List.map_cons, List.map_cons, List.foldl_cons]
      exact CiaMessage.isInitialized_foldl_merge (CiaMessage.isInitialized_merge (Or.inr hp))
  have hplain := CiaMessage.parseFromArray_eq_some_iff.mpr ⟨hall, hinit⟩
  rcases parseFromArray_cases hr m (pieces.map Prod.fst).flatten with ⟨_, hnone⟩ | ⟨m', hm', hsome⟩
  · cases hplain.symm.trans hnone
  · exact ⟨m', hm', Option.some.inj (hsome.symm.trans hplain)⟩

/-- `type` in one array, `type` and `status` in another. -/
theorem parseFromArray_flatten_two :
    ∃ m', sharedCtor.parseFromArray arrayInput [10, 1, 0x41, 10, 1, 0x42, 26, 1, 0x43] = some m' ∧
      m'.toMessage
        = ((sharedCtor.mergeFrom ((sharedCtor.mutable .type).assign .type [0x41])).mergeFrom
            ((((sharedCtor.mutable .type).assign .type [0x42]).mutable .status).assign .status
              [0x43])).toMessage := by
  have hpieces : ∀ p ∈ [([10, 1, 0x41], (sharedCtor.mutable .type).assign .type [0x41]),
      ([10, 1, 0x42, 26, 1, 0x43],
        (((sharedCtor.mutable .type).assign .type [0x42]).mutable .status).assign .status [0x43])],
      ∃ m : GeneratedMessage, m.parseFromArray arrayInput p.1 = some p.2 := by
    simp only [List.forall_mem_cons, List.not_mem_nil, false_implies, implies_true, and_true]
    exact ⟨⟨sharedCtor, rfl⟩, ⟨sharedCtor, rfl⟩⟩
  exact parseFromArray_flatten arrayInput_lawful skipField_skips (List.cons_ne_nil _ _) hpieces
    sharedCtor

end GeneratedMessage

/-- **A message that came in a frame can be sent on in one**: the frame is built
without a byte outside the buffer, and the peer reads the same message. -/
theorem sendOn {skipField : Nat → Bytes → Option (Bytes × Bytes)} (hskip : SkipsFields skipField)
    (o : ByteOrder) (data : Buffer) {body : Bytes} {m : CiaMessage}
    (hbody : body.length ≤ maxBodyLength) (h : (generated skipField).parse body = some m) :
    ∃ ch, ChatMessage.ofMessage (generated skipField) o data m = some ch ∧
      decodeFrame (generated skipField) ch.frame = some m := by
  have hlt : body.length < 2 ^ 31 := by
    unfold maxBodyLength at hbody
    omega
  obtain ⟨hsize, hback⟩ := CiaMessage.reencode hskip hlt h
  obtain ⟨ch, hch, hn, hh, hb⟩ := ChatMessage.ofMessage_of_length (P := generated skipField) o data
    (CiaMessage.length_serialize (by omega)) (Nat.le_trans hsize hbody)
  refine ⟨ch, hch, ?_⟩
  rw [ChatMessage.frame_of_header (hh.trans (congrArg _ hn.symm)), hb, decodeFrame_frame]
  · exact hback
  · show m.serialize.length ≤ maxBodyLength
    rw [CiaMessage.length_serialize (by omega)]
    omega

/-- A call request with a field of no known number. -/
theorem sendOn_unknown :
    ∃ ch, ChatMessage.ofMessage (generated skipField) .little zeroed
        { CiaMessage.empty.set .type [0x41] with unknownFields := [0xf8, 1, 5] } = some ch ∧
      decodeFrame (generated skipField) ch.frame
        = some { CiaMessage.empty.set .type [0x41] with unknownFields := [0xf8, 1, 5] } := by
  have hbody : ([0xf8, 1, 5, 10, 1, 0x41] : Bytes).length ≤ maxBodyLength := by decide
  exact sendOn skipField_skips .little zeroed hbody rfl

end CiaServer.Net
