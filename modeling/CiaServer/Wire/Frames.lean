import CiaServer.Wire.Bytes

/-!
# Length-prefixed frames

A stream of frames, each a body behind a big-endian length of `h` bytes, where
a length above `max` ends the stream. `next?` takes one frame off a stream,
`bodies` all of them, `rest` is what they leave. What `next?` takes off is
exactly `frame` of the body it returns (`eq_frame_of_next?`), and `bodies`
undoes the concatenation of frames (`bodies_frames`). A stream has no first
frame when it ends inside its header or its body, or when its header is too
large (`Oversized`).
-/

namespace Wire

/-- A body behind its length. -/
def frame (h : Nat) (body : List UInt8) : List UInt8 := be h body.length ++ body

/-- The first frame of a stream, if it is complete and not too long, and what
follows it. -/
def next? (h max : Nat) (bs : List UInt8) : Option (List UInt8 × List UInt8) :=
  if h ≤ bs.length ∧ readBE (bs.take h) ≤ max ∧ readBE (bs.take h) ≤ (bs.drop h).length then
    some ((bs.drop h).take (readBE (bs.take h)), (bs.drop h).drop (readBE (bs.take h)))
  else none

/-- At most `k` frames taken off a stream, and what follows them. -/
def split (h max : Nat) : Nat → List UInt8 → List (List UInt8) × List UInt8
  | 0, bs => ([], bs)
  | k + 1, bs =>
    match next? h max bs with
    | none => ([], bs)
    | some (body, bs') => (body :: (split h max k bs').1, (split h max k bs').2)

/-- The bodies of all frames of a stream, up to the first that is incomplete or
too long. A frame with its length has a byte at least. -/
def bodies (h max : Nat) (bs : List UInt8) : List (List UInt8) := (split h max bs.length bs).1

/-- What is left of a stream behind its frames. -/
def rest (h max : Nat) (bs : List UInt8) : List UInt8 := (split h max bs.length bs).2

/-- A stream begins with a length that is not accepted. -/
def Oversized (h max : Nat) (bs : List UInt8) : Prop :=
  h ≤ bs.length ∧ max < readBE (bs.take h)

variable {h max : Nat}

@[simp] theorem length_frame (body : List UInt8) : (frame h body).length = h + body.length := by
  rw [frame, List.length_append, length_be]

/-- One frame in front of a stream is taken off it. -/
theorem next?_frame {body : List UInt8} (hb : body.length ≤ max) (hm : max < 256 ^ h)
    (bs : List UInt8) : next? h max (frame h body ++ bs) = some (body, bs) := by
  have htake : (frame h body ++ bs).take h = be h body.length := by
    rw [frame, List.append_assoc, List.take_left' (length_be h _)]
  have hdrop : (frame h body ++ bs).drop h = body ++ bs := by
    rw [frame, List.append_assoc, List.drop_left' (length_be h _)]
  have hread : readBE ((frame h body ++ bs).take h) = body.length := by
    rw [htake, readBE_be (by omega)]
  have hlen : h ≤ (frame h body ++ bs).length ∧ body.length ≤ (body ++ bs).length := by
    simp only [List.length_append, length_frame]
    omega
  rw [next?, hread, hdrop, if_pos ⟨hlen.1, hb, hlen.2⟩, List.take_left, List.drop_left]

/-- What is taken off a stream is a frame, with its own length in front. -/
theorem eq_frame_of_next? {bs body bs' : List UInt8} (hn : next? h max bs = some (body, bs')) :
    bs = frame h body ++ bs' ∧ body.length ≤ max := by
  unfold next? at hn
  split at hn
  · next hc =>
    obtain ⟨hh, hmax, hlen⟩ := hc
    cases hn
    have hl : (List.take (readBE (bs.take h)) (bs.drop h)).length = readBE (bs.take h) := by
      rw [List.length_take]
      omega
    refine ⟨?_, by omega⟩
    -- the header is the big-endian number it was read as
    have hth : (bs.take h).length = h := by rw [List.length_take]; omega
    have hbe := be_readBE (bs.take h)
    rw [hth] at hbe
    rw [frame, hl, hbe, List.append_assoc, List.take_append_drop, List.take_append_drop]
  · cases hn

/-! ## No frame -/

theorem next?_of_short_header {bs : List UInt8} (hs : bs.length < h) : next? h max bs = none :=
  if_neg (by omega)

theorem next?_of_oversized {bs : List UInt8} (ho : Oversized h max bs) : next? h max bs = none :=
  if_neg (by have := ho.2; omega)

/-- A length and fewer bytes behind it than it says. -/
theorem next?_of_short_body {n : Nat} {bs : List UInt8} (hn : n < 256 ^ h) (hs : bs.length < n) :
    next? h max (be h n ++ bs) = none := by
  rw [next?, List.take_left' (length_be h n), readBE_be hn, List.drop_left' (length_be h n)]
  exact if_neg (by omega)

theorem Oversized.append {bs : List UInt8} (ho : Oversized h max bs) (cs : List UInt8) :
    Oversized h max (bs ++ cs) := by
  refine ⟨by rw [List.length_append]; have := ho.1; omega, ?_⟩
  rw [List.take_append_of_le_length ho.1]
  exact ho.2

theorem not_oversized_of_short {bs : List UInt8} (hs : bs.length < h) : ¬Oversized h max bs :=
  fun ho => by have := ho.1; omega

theorem not_oversized_of_le {n : Nat} {bs : List UInt8} (hn : n < 256 ^ h) (hle : n ≤ max) :
    ¬Oversized h max (be h n ++ bs) := by
  rintro ⟨_, ho⟩
  rw [List.take_left' (length_be h n), readBE_be hn] at ho
  omega

/-! ## All frames -/

/-- With a length of a byte or more, `k` steps are enough for `k` bytes. -/
theorem split_of_length_le (hh : 0 < h) :
    ∀ {k l : Nat} {bs : List UInt8}, bs.length ≤ k → bs.length ≤ l →
      split h max k bs = split h max l bs
  | 0, 0, _, _, _ => rfl
  | 0, l + 1, bs, hk, _ => by
    have hn : next? h max bs = none := if_neg (by omega)
    simp only [split, hn]
  | k + 1, 0, bs, _, hl => by
    have hn : next? h max bs = none := if_neg (by omega)
    simp only [split, hn]
  -- a frame that was taken off leaves a shorter stream to both
  | k + 1, l + 1, bs, hk, hl => by
    cases hn : next? h max bs with
    | none => simp only [split, hn]
    | some p =>
      obtain ⟨body, bs'⟩ := p
      have hlen := congrArg List.length (eq_frame_of_next? hn).1
      rw [List.length_append, length_frame] at hlen
      simp only [split, hn]
      rw [split_of_length_le hh (show bs'.length ≤ k by omega) (show bs'.length ≤ l by omega)]

theorem split_of_next? {bs body bs' : List UInt8} (hh : 0 < h)
    (hn : next? h max bs = some (body, bs')) :
    split h max bs.length bs
      = (body :: (split h max bs'.length bs').1, (split h max bs'.length bs').2) := by
  have hlen := congrArg List.length (eq_frame_of_next? hn).1
  rw [List.length_append, length_frame] at hlen
  obtain ⟨k, hk⟩ : ∃ k, bs.length = k + 1 := ⟨bs.length - 1, by omega⟩
  rw [hk]
  simp only [split, hn]
  rw [split_of_length_le hh (show bs'.length ≤ k by omega) (Nat.le_refl _)]

theorem bodies_of_next? {bs body bs' : List UInt8} (hh : 0 < h)
    (hn : next? h max bs = some (body, bs')) :
    bodies h max bs = body :: bodies h max bs' := congrArg Prod.fst (split_of_next? hh hn)

theorem rest_of_next? {bs body bs' : List UInt8} (hh : 0 < h)
    (hn : next? h max bs = some (body, bs')) : rest h max bs = rest h max bs' := by
  rw [rest, split_of_next? hh hn]
  rfl

theorem split_of_next?_none {bs : List UInt8} (hn : next? h max bs = none) (k : Nat) :
    split h max k bs = ([], bs) := by
  cases k with
  | zero => rfl
  | succ k => simp only [split, hn]

theorem bodies_of_next?_none {bs : List UInt8} (hn : next? h max bs = none) :
    bodies h max bs = [] := congrArg Prod.fst (split_of_next?_none hn _)

theorem rest_of_next?_none {bs : List UInt8} (hn : next? h max bs = none) : rest h max bs = bs :=
  congrArg Prod.snd (split_of_next?_none hn _)

theorem length_le_of_next? {bs body bs' : List UInt8} (hn : next? h max bs = some (body, bs')) :
    body.length ≤ max := by
  unfold next? at hn
  split at hn <;> cases hn
  next hc =>
  rw [List.length_take]
  omega

/-- No body is longer than is accepted. -/
theorem length_le_of_mem_bodies {bs body : List UInt8} (hb : body ∈ bodies h max bs) :
    body.length ≤ max := by
  have key : ∀ (k : Nat) (bs : List UInt8), body ∈ (split h max k bs).1 → body.length ≤ max := by
    intro k
    induction k with
    | zero =>
      intro bs hb
      cases hb
    | succ k ih =>
      intro bs hb
      unfold split at hb
      split at hb
      · cases hb
      · next body' bs' hn =>
        rcases List.mem_cons.mp hb with rfl | hb
        · exact length_le_of_next? hn
        · exact ih bs' hb
  exact key bs.length bs hb

/-- The frames of some bodies, one behind the other. -/
def frames (h : Nat) (bodys : List (List UInt8)) : List UInt8 := (bodys.map (frame h)).flatten

theorem frames_concat (bodys : List (List UInt8)) (body : List UInt8) :
    frames h (bodys ++ [body]) = frames h bodys ++ frame h body := by
  simp [frames]

/-- **Splitting undoes framing**, whatever follows the frames. -/
theorem bodies_frames (hh : 0 < h) (hm : max < 256 ^ h) (bs : List UInt8) :
    ∀ {bodys : List (List UInt8)}, (∀ body ∈ bodys, body.length ≤ max) →
      bodies h max (frames h bodys ++ bs) = bodys ++ bodies h max bs
  | [], _ => rfl
  | body :: bodys, hb => by
    rw [frames, List.map_cons, List.flatten_cons, List.append_assoc,
      bodies_of_next? hh (next?_frame (hb body (List.mem_cons_self ..)) hm _), ← frames,
      bodies_frames hh hm bs fun b hbs => hb b (List.mem_cons_of_mem _ hbs)]
    rfl

theorem rest_frames (hh : 0 < h) (hm : max < 256 ^ h) (bs : List UInt8) :
    ∀ {bodys : List (List UInt8)}, (∀ body ∈ bodys, body.length ≤ max) →
      rest h max (frames h bodys ++ bs) = rest h max bs
  | [], _ => rfl
  | body :: bodys, hb => by
    rw [frames, List.map_cons, List.flatten_cons, List.append_assoc,
      rest_of_next? hh (next?_frame (hb body (List.mem_cons_self ..)) hm _), ← frames,
      rest_frames hh hm bs fun b hbs => hb b (List.mem_cons_of_mem _ hbs)]

end Wire
