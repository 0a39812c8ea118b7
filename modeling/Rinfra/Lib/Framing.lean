import Rinfra.Lib.BigEndian

/-!
# Length-prefixed streams

A frame is its length in four big-endian bytes and then the payload. `unframe`
gives the payloads of the frames that are complete in a stream, and what is left
of the one that is not. It does not matter where a stream is cut.
-/

namespace Rinfra.Lib.Framing

abbrev Bytes := List UInt8

def frame (payload : Bytes) : Bytes := toBeBytes 4 payload.length ++ payload

def cutFrame (stream : Bytes) : Option (Bytes × Bytes) :=
  if 4 ≤ stream.length then
    let size := fromBeBytes (stream.take 4)
    if stream.length < 4 + size then none
    else some ((stream.drop 4).take size, stream.drop (4 + size))
  else none

def cutFrames : Nat → Bytes → List Bytes × Bytes
  | 0, stream => ([], stream)
  | fuel + 1, stream =>
    match cutFrame stream with
    | none => ([], stream)
    | some (payload, rest) =>
      let (payloads, left) := cutFrames fuel rest
      (payload :: payloads, left)

def unframe (stream : Bytes) : List Bytes × Bytes := cutFrames stream.length stream

variable {stream more payload rest : Bytes} {fuel : Nat}

theorem length_of_cutFrame (h : cutFrame stream = some (payload, rest)) :
    rest.length < stream.length := by
  unfold cutFrame at h
  split at h
  · simp only at h
    split at h
    · cases h
    · obtain ⟨-, rfl⟩ := Prod.mk.inj (Option.some.inj h)
      rw [List.length_drop]
      omega
  · cases h

/-- More bytes do not change a frame that is complete. -/
theorem cutFrame_append (h : cutFrame stream = some (payload, rest)) (more : Bytes) :
    cutFrame (stream ++ more) = some (payload, rest ++ more) := by
  unfold cutFrame at h
  split at h
  · rename_i hlength
    simp only at h
    split at h
    · cases h
    · rename_i hsize
      obtain ⟨rfl, rfl⟩ := Prod.mk.inj (Option.some.inj h)
      have htake : (stream ++ more).take 4 = stream.take 4 := List.take_append_of_le_length hlength
      rw [cutFrame, if_pos (by rw [List.length_append]; omega)]
      simp only [htake]
      rw [if_neg (by rw [List.length_append]; omega), List.drop_append_of_le_length hlength,
        List.take_append_of_le_length (by rw [List.length_drop]; omega),
        List.drop_append_of_le_length (by omega)]
  · cases h

theorem cutFrame_frame (h : payload.length < 256 ^ 4) (more : Bytes) :
    cutFrame (frame payload ++ more) = some (payload, more) := by
  have htake : (frame payload ++ more).take 4 = toBeBytes 4 payload.length := by
    rw [frame, List.append_assoc, List.take_left' (length_toBeBytes ..)]
  have hdrop : (frame payload ++ more).drop 4 = payload ++ more := by
    rw [frame, List.append_assoc, List.drop_left' (length_toBeBytes ..)]
  have hlength : (frame payload ++ more).length = 4 + (payload.length + more.length) := by
    simp [frame]
  rw [cutFrame, if_pos (by omega), htake, fromBeBytes_toBeBytes, Nat.mod_eq_of_lt h]
  simp only
  rw [if_neg (by omega), hdrop, ← List.drop_drop, hdrop]
  simp

theorem cutFrames_congr {fuel' : Nat} (h : stream.length ≤ fuel) (h' : stream.length ≤ fuel') :
    cutFrames fuel stream = cutFrames fuel' stream := by
  induction fuel generalizing stream fuel' with
  | zero =>
    obtain rfl := List.length_eq_zero_iff.mp (Nat.le_zero.mp h)
    cases fuel' <;> rfl
  | succ fuel ih =>
    cases fuel' with
    | zero =>
      obtain rfl := List.length_eq_zero_iff.mp (Nat.le_zero.mp h')
      rfl
    | succ fuel' =>
      cases hcut : cutFrame stream with
      | none => simp [cutFrames, hcut]
      | some cut =>
        have hlength := length_of_cutFrame hcut
        have hrest : cutFrames fuel cut.2 = cutFrames fuel' cut.2 := ih (by omega) (by omega)
        rw [cutFrames, cutFrames, hcut]
        simp only [hrest]

theorem cutFrames_of_le (h : stream.length ≤ fuel) : cutFrames fuel stream = unframe stream :=
  cutFrames_congr h (Nat.le_refl _)

theorem unframe_of_none (h : cutFrame stream = none) : unframe stream = ([], stream) := by
  unfold unframe
  cases stream.length with
  | zero => rfl
  | succ n => simp [cutFrames, h]

theorem unframe_of_some (h : cutFrame stream = some (payload, rest)) :
    unframe stream = (payload :: (unframe rest).1, (unframe rest).2) := by
  have hlength := length_of_cutFrame h
  obtain ⟨n, hn⟩ := Nat.exists_eq_add_of_lt hlength
  have hrest : cutFrames (rest.length + n) rest = unframe rest := cutFrames_of_le (by omega)
  rw [unframe, hn, cutFrames, h]
  simp only [hrest]

/-- A stream can be read in pieces: what is left of one goes before the next. -/
theorem unframe_append (stream more : Bytes) :
    unframe (stream ++ more) =
      ((unframe stream).1 ++ (unframe ((unframe stream).2 ++ more)).1,
        (unframe ((unframe stream).2 ++ more)).2) := by
  induction h : stream.length using Nat.strongRecOn generalizing stream with
  | _ n ih =>
    cases hcut : cutFrame stream with
    | none => simp [unframe_of_none hcut]
    | some cut =>
      have hrest := ih cut.2.length (h ▸ length_of_cutFrame hcut) cut.2 rfl
      rw [unframe_of_some hcut, unframe_of_some (cutFrame_append hcut more), hrest]
      rfl

theorem unframe_frames {payloads : List Bytes} (h : ∀ p ∈ payloads, p.length < 256 ^ 4)
    (hleft : cutFrame rest = none) :
    unframe (payloads.flatMap frame ++ rest) = (payloads, rest) := by
  induction payloads with
  | nil => exact unframe_of_none hleft
  | cons p payloads ih =>
    obtain ⟨hp, hps⟩ := List.forall_mem_cons.mp h
    rw [List.flatMap_cons, List.append_assoc, unframe_of_some (cutFrame_frame hp _), ih hps]

end Rinfra.Lib.Framing
