import Rinfra.Trpc.Protocol

/-!
# Streams that are cut off

A peer that goes away leaves the start of what it wrote. The reader takes the
end of the stream for the end of the conversation while it is at the length of a
frame, and for an error while it is at the text.
-/

namespace Rinfra.Trpc

open Rinfra.Lib

/-- `read_frame` gives these frames, and `P` holds of what is left of the stream. -/
def YieldsThen (serde : Serde) (P : Bytes → Prop) : Bytes → List Frame → Prop
  | stream, [] => P stream
  | stream, frame :: frames =>
    ∃ rest, readFrame serde stream = .ok (some (frame, rest)) ∧ YieldsThen serde P rest frames

def writtenSize (serde : Serde) (frame : Frame) : Nat :=
  match writeFrame serde frame with
  | .ok bytes => bytes.length
  | .error _ => 0

/-- The frames that are complete in the first `n` bytes, and how many bytes of
the next one are there. -/
def cutAt (serde : Serde) : List Frame → Nat → List Frame × Nat
  | [], _ => ([], 0)
  | frame :: frames, n =>
    if writtenSize serde frame ≤ n then
      let (complete, left) := cutAt serde frames (n - writtenSize serde frame)
      (frame :: complete, left)
    else ([], n)

/-- The reader gives the complete frames, and then `Ok(None)` where the cut lies
between two frames and an error where it does not. -/
def Separates (serde : Serde) (frames : List Frame) (stream : Bytes) (n : Nat) : Prop :=
  YieldsThen serde
    (fun rest => (readFrame serde rest = .ok none ↔ (cutAt serde frames n).2 = 0) ∧
      ((cutAt serde frames n).2 ≠ 0 → ∃ e, readFrame serde rest = .error e))
    (stream.take n) (cutAt serde frames n).1

section
variable {serde : Serde} {frame : Frame} {frames : List Frame} {data rest : Bytes}

theorem writtenSize_eq (h : serde.toVec frame = .ok data) :
    writtenSize serde frame = 4 + data.length := by
  simp [writtenSize, writeFrame, h]

theorem cutAt_complete (h : serde.toVec frame = .ok data) (hn : 4 + data.length ≤ n) :
    cutAt serde (frame :: frames) n =
      (frame :: (cutAt serde frames (n - (4 + data.length))).1,
        (cutAt serde frames (n - (4 + data.length))).2) := by
  simp [cutAt, writtenSize_eq h, hn]

theorem cutAt_within (h : serde.toVec frame = .ok data) (hn : n < 4 + data.length) :
    cutAt serde (frame :: frames) n = ([], n) := by
  simp [cutAt, writtenSize_eq h, hn]

theorem readFrame_short (h : rest.length < 4) : readFrame serde rest = .ok none := by
  simp [readFrame, h]

theorem readFrame_torn (hlen : data.length ≤ maxFrameSize) (hk : k < data.length) :
    ∃ e, readFrame serde (toBeBytes 4 (data.length % 256 ^ 4) ++ data.take k) = .error e := by
  have hlt : data.length < 256 ^ 4 := Nat.lt_of_le_of_lt hlen (by decide)
  have hshort : (data.take k).length < data.length := by simp [hk]
  rw [Nat.mod_eq_of_lt hlt, readFrame_delimited hlt, if_neg (Nat.not_lt.mpr hlen), if_pos hshort]
  exact ⟨_, rfl⟩

/-- What is left of the first frame when the cut lies within it. -/
theorem take_within (serde : Serde) (rest : Bytes) (hlen : data.length ≤ maxFrameSize)
    (hn : n < 4 + data.length) :
    let cut := (toBeBytes 4 (data.length % 256 ^ 4) ++ (data ++ rest)).take n
    (n < 4 → readFrame serde cut = .ok none) ∧ (4 ≤ n → ∃ e, readFrame serde cut = .error e) := by
  intro cut
  constructor
  · intro hfour
    exact readFrame_short (by simp [cut]; omega)
  · intro hfour
    have hcut : cut = toBeBytes 4 (data.length % 256 ^ 4) ++ data.take (n - 4) := by
      have hk : n - 4 ≤ data.length := by omega
      simp [cut, List.take_append, List.take_of_length_le, hfour, hk]
    rw [hcut]
    exact readFrame_torn hlen (by omega)

theorem take_behind (hn : 4 + data.length ≤ n) :
    (toBeBytes 4 (data.length % 256 ^ 4) ++ (data ++ rest)).take n =
      toBeBytes 4 (data.length % 256 ^ 4) ++ (data ++ rest.take (n - (4 + data.length))) := by
  have hfour : 4 ≤ n := by omega
  have hdata : data.length ≤ n - 4 := by omega
  simp [List.take_append, List.take_of_length_le, hfour, hdata, Nat.sub_sub]

end

/-- A stream of frames that the reader takes, cut off anywhere: the end is
reported for what it is unless the cut lies within the length of a frame. -/
theorem separates_iff (serde : Serde) (frames : List Frame) (stream : Bytes) (n : Nat)
    (hserde : ∀ frame ∈ frames, serde.Exact frame)
    (hwrite : writeFrames serde frames = .ok stream)
    (hfits : ∀ frame ∈ frames, ∀ data, serde.toVec frame = .ok data →
      data.length ≤ maxFrameSize) :
    Separates serde frames stream n ↔
      ¬ (0 < (cutAt serde frames n).2 ∧ (cutAt serde frames n).2 < 4) := by
  induction frames generalizing stream n with
  | nil =>
    cases hwrite
    simp [Separates, cutAt, YieldsThen, readFrame]
  | cons frame frames ih =>
    obtain ⟨data, rest, htext, hrest, rfl⟩ := writeFrames_cons_eq_ok.mp hwrite
    have hlen : data.length ≤ maxFrameSize := hfits frame List.mem_cons_self data htext
    by_cases hn : 4 + data.length ≤ n
    · have ih := ih rest (n - (4 + data.length)) (fun f h => hserde f (List.mem_cons_of_mem _ h))
        hrest fun f h => hfits f (List.mem_cons_of_mem _ h)
      have hframe : serde.Exact frame := hserde frame List.mem_cons_self
      rw [cutAt_complete htext hn, ← ih]
      simp only [Separates, cutAt_complete htext hn, take_behind hn, YieldsThen,
        readFrame_fits hframe htext hlen, Except.ok.injEq, Option.some.injEq, Prod.mk.injEq,
        true_and, exists_eq_left']
    · have hn := Nat.lt_of_not_le hn
      obtain ⟨hclean, htorn⟩ := take_within serde rest hlen hn
      simp only [Separates, cutAt_within htext hn, YieldsThen]
      by_cases hfour : n < 4
      · rw [hclean hfour]
        simp
        omega
      · obtain ⟨e, he⟩ := htorn (Nat.le_of_not_lt hfour)
        rw [he]
        simp
        omega

/-- The text of the frame breaks off. -/
theorem separates_iff_torn :
    Separates (onlyFrame helloFrame) [helloFrame] (toBeBytes 4 75 ++ frameText helloFrame) 40 ↔
      ¬ (0 < (cutAt (onlyFrame helloFrame) [helloFrame] 40).2 ∧
        (cutAt (onlyFrame helloFrame) [helloFrame] 40).2 < 4) := by
  refine separates_iff _ _ _ _ (by simpa using onlyFrame_exact helloFrame) (by decide) ?_
  simp only [List.mem_singleton, forall_eq]
  rintro _ ⟨⟩
  decide

/-- Two of the four bytes of the length are there: the reader says that the
stream has ended, and the frame is lost. -/
theorem cut_length_is_clean_end :
    readFrame (onlyFrame helloFrame) ((toBeBytes 4 75 ++ frameText helloFrame).take 2) =
        .ok none ∧
      ¬ Separates (onlyFrame helloFrame) [helloFrame]
        (toBeBytes 4 75 ++ frameText helloFrame) 2 := by
  have hcut : cutAt (onlyFrame helloFrame) [helloFrame] 2 = ([], 2) :=
    cutAt_within rfl (by decide)
  have hread : readFrame (onlyFrame helloFrame)
      ((toBeBytes 4 75 ++ frameText helloFrame).take 2) = .ok none := readFrame_short (by simp)
  refine ⟨hread, ?_⟩
  simp [Separates, hcut, YieldsThen, hread]

end Rinfra.Trpc
