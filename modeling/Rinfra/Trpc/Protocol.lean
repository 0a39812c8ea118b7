import Rinfra.Lib.BigEndian
import Rinfra.Trpc.Client

/-!
# The tRPC frame stream

A frame is its JSON text behind four bytes of length. The writer takes any text
and cuts its length to 32 bits; the reader takes up to 16 MiB. `serde_json` is a
parameter. The stream is what has been written, and ends there.
-/

namespace Rinfra.Trpc

open Rinfra.Lib

abbrev Bytes := List UInt8

structure Serde where
  toVec : Frame → Except String Bytes
  fromSlice : Bytes → Except String Frame

/-- A frame is read from its own text and from no proper start of it. -/
structure Serde.Exact (serde : Serde) (frame : Frame) : Prop where
  inverts : ∀ data, serde.toVec frame = .ok data → serde.fromSlice data = .ok frame
  start : ∀ data n, serde.toVec frame = .ok data → n < data.length →
    ∃ e, serde.fromSlice (data.take n) = .error e

def maxFrameSize : Nat := 16 * 1024 * 1024

def writeFrame (serde : Serde) (frame : Frame) : Except AppError Bytes :=
  match serde.toVec frame with
  | .error e => .error ⟨.rpcServiceError, s!"serialize frame: {e}"⟩
  | .ok data =>
    -- `as u32`
    let len := data.length % 256 ^ 4
    .ok (toBeBytes 4 len ++ data)

/-- The text of a frame, whose length has been read. -/
def readBody (serde : Serde) (buf : Bytes) : Except AppError Frame :=
  match serde.fromSlice buf with
  | .error e => .error ⟨.rpcServerFailed, s!"deserialize frame: {e}"⟩
  | .ok frame => .ok frame

/-- A frame with what comes after it, or `none` at the end of the stream. -/
def readFrame (serde : Serde) (stream : Bytes) : Except AppError (Option (Frame × Bytes)) :=
  if stream.length < 4 then .ok none
  else
    let len := fromBeBytes (stream.take 4)
    let rest := stream.drop 4
    if len > maxFrameSize then .error ⟨.rpcServerFailed, s!"frame too large: {len} bytes"⟩
    else if rest.length < len then .error ⟨.rpcServerFailed, "early eof"⟩
    else (readBody serde (rest.take len)).map fun frame => some (frame, rest.drop len)

/-- What is on the stream after frames were written one after the other. -/
def writeFrames (serde : Serde) : List Frame → Except AppError Bytes
  | [] => .ok []
  | frame :: frames =>
    match writeFrame serde frame with
    | .error e => .error e
    | .ok bytes => (writeFrames serde frames).map fun rest => bytes ++ rest

/-- `read_frame` gives these frames and then `Ok(None)`. -/
def Yields (serde : Serde) : Bytes → List Frame → Prop
  | stream, [] => readFrame serde stream = .ok none
  | stream, frame :: frames =>
    ∃ rest, readFrame serde stream = .ok (some (frame, rest)) ∧ Yields serde rest frames

section
variable {serde : Serde} {frame : Frame} {frames : List Frame} {data rest stream : Bytes}

theorem writeFrames_cons_eq_ok :
    writeFrames serde (frame :: frames) = .ok stream ↔ ∃ data rest,
      serde.toVec frame = .ok data ∧ writeFrames serde frames = .ok rest ∧
        stream = toBeBytes 4 (data.length % 256 ^ 4) ++ (data ++ rest) := by
  simp only [writeFrames, writeFrame]
  cases htext : serde.toVec frame with
  | error e => simp
  | ok data =>
    cases hrest : writeFrames serde frames with
    | error e => simp [Except.map]
    | ok rest => simp [Except.map, eq_comm]

theorem readFrame_delimited (h : n < 256 ^ 4) :
    readFrame serde (toBeBytes 4 n ++ rest) =
      if n > maxFrameSize then .error ⟨.rpcServerFailed, s!"frame too large: {n} bytes"⟩
      else if rest.length < n then .error ⟨.rpcServerFailed, "early eof"⟩
      else (readBody serde (rest.take n)).map fun frame => some (frame, rest.drop n) := by
  have htake : (toBeBytes 4 n ++ rest).take 4 = toBeBytes 4 n :=
    List.take_left' (length_toBeBytes 4 n)
  have hdrop : (toBeBytes 4 n ++ rest).drop 4 = rest := List.drop_left' (length_toBeBytes 4 n)
  have hlen : ¬ (toBeBytes 4 n ++ rest).length < 4 := by simp
  simp only [readFrame, if_neg hlen, htake, hdrop, fromBeBytes_toBeBytes, Nat.mod_eq_of_lt h]

/-- A frame within the limit is read back. -/
theorem readFrame_fits (hserde : serde.Exact frame) (htext : serde.toVec frame = .ok data)
    (hfits : data.length ≤ maxFrameSize) :
    readFrame serde (toBeBytes 4 (data.length % 256 ^ 4) ++ (data ++ rest)) =
      .ok (some (frame, rest)) := by
  have hlt : data.length < 256 ^ 4 := Nat.lt_of_le_of_lt hfits (by decide)
  rw [Nat.mod_eq_of_lt hlt, readFrame_delimited hlt, if_neg (Nat.not_lt.mpr hfits),
    if_neg (by simp), List.take_left, List.drop_left, readBody, hserde.inverts data htext]
  rfl

/-- A frame over the limit is not read back, whatever its length was cut to. -/
theorem readFrame_over (hserde : serde.Exact frame) (htext : serde.toVec frame = .ok data)
    (hover : maxFrameSize < data.length) (rest : Bytes) :
    ∃ e, readFrame serde (toBeBytes 4 (data.length % 256 ^ 4) ++ (data ++ rest)) = .error e := by
  rw [readFrame_delimited (Nat.mod_lt _ (by decide))]
  split
  · exact ⟨_, rfl⟩
  · rename_i hlen
    have hlt : data.length % 256 ^ 4 < data.length := by omega
    obtain ⟨e, he⟩ := hserde.start data _ htext hlt
    rw [if_neg (by simp; omega), List.take_append_of_le_length hlt.le, readBody, he]
    exact ⟨_, rfl⟩

end

/-- What was written is read back exactly when no frame is over the reader's
limit. -/
theorem stream_yields_iff (serde : Serde) (frames : List Frame) (stream : Bytes)
    (hserde : ∀ frame ∈ frames, serde.Exact frame)
    (hwrite : writeFrames serde frames = .ok stream) :
    Yields serde stream frames ↔
      ∀ frame ∈ frames, ∀ data, serde.toVec frame = .ok data → data.length ≤ maxFrameSize := by
  induction frames generalizing stream with
  | nil =>
    cases hwrite
    exact iff_of_true rfl (by simp)
  | cons frame frames ih =>
    obtain ⟨data, rest, htext, hrest, rfl⟩ := writeFrames_cons_eq_ok.mp hwrite
    have hframe : serde.Exact frame := hserde frame List.mem_cons_self
    have ih := ih rest (fun f h => hserde f (List.mem_cons_of_mem _ h)) hrest
    constructor
    · rintro ⟨rest', hread, hyields⟩
      have hfits : data.length ≤ maxFrameSize := by
        by_contra hover
        obtain ⟨e, he⟩ := readFrame_over hframe htext (Nat.not_le.mp hover) rest
        rw [he] at hread
        cases hread
      rw [readFrame_fits hframe htext hfits] at hread
      cases hread
      intro f hf text htext'
      rcases List.mem_cons.mp hf with rfl | hf
      · rw [htext] at htext'
        cases htext'
        exact hfits
      · exact ih.mp hyields f hf text htext'
    · intro h
      exact ⟨rest, readFrame_fits hframe htext (h frame List.mem_cons_self data htext),
        ih.mpr fun f hf => h f (List.mem_cons_of_mem _ hf)⟩

-- ---------------------------------------------------------------------------
-- A payload of four characters a byte
-- ---------------------------------------------------------------------------

def FrameKind.text : FrameKind → String
  | .tell => "Tell"
  | .request => "Request"
  | .response => "Response"
  | .error => "Error"

def payloadText : Bytes → Bytes
  | [] => []
  | [b] => utf8Bytes (toString b.toNat)
  | b :: rest => utf8Bytes (toString b.toNat) ++ (44 :: payloadText rest)

/-- The JSON text of a frame whose service needs no escapes. -/
def frameText (frame : Frame) : Bytes :=
  utf8Bytes ("\x7b\"kind\":\"" ++ frame.kind.text ++ "\",\"request_id\":" ++
    toString frame.requestId ++ ",\"service\":\"" ++ frame.service ++ "\",\"payload\":[") ++
    (payloadText frame.payload ++ utf8Bytes "]\x7d")

/-- `serde_json` on the texts of one frame. -/
def onlyFrame (frame : Frame) : Serde where
  toVec frame := .ok (frameText frame)
  fromSlice data :=
    if data = frameText frame then .ok frame else .error "EOF while parsing a value"

theorem onlyFrame_exact (frame : Frame) : (onlyFrame frame).Exact frame where
  inverts := by
    rintro _ ⟨⟩
    exact if_pos rfl
  start := by
    rintro _ n ⟨⟩ hn
    refine ⟨_, if_neg fun heq => ?_⟩
    have hlen := congrArg List.length heq
    rw [List.length_take_of_le hn.le] at hlen
    omega

def helloFrame : Frame := ⟨.request, 42, "test-svc", [104, 105]⟩

theorem stream_yields_iff_hello :
    Yields (onlyFrame helloFrame) (toBeBytes 4 75 ++ frameText helloFrame) [helloFrame] ↔
      ∀ frame ∈ [helloFrame], ∀ data, (onlyFrame helloFrame).toVec frame = .ok data →
        data.length ≤ maxFrameSize :=
  stream_yields_iff _ _ _ (by simpa using onlyFrame_exact helloFrame) (by decide)

theorem length_payloadText (n : Nat) :
    (payloadText (List.replicate (n + 1) 255)).length = 4 * n + 3 := by
  induction n with
  | zero => decide
  | succ n ih =>
    have hbyte : (utf8Bytes (toString (255 : UInt8).toNat)).length = 3 := by decide
    rw [List.replicate_succ, List.replicate_succ, payloadText, ← List.replicate_succ,
      List.length_append, List.length_cons, ih, hbyte]
    · omega
    · simp

def largeFrame (n : Nat) : Frame := ⟨.tell, 0, "svc", List.replicate (n + 1) 255⟩

theorem largeFrame_text (n : Nat) : 4 * n + 4 < (frameText (largeFrame n)).length := by
  have hclose : (utf8Bytes "]\x7d").length = 2 := by decide
  simp only [frameText, largeFrame, List.length_append, length_payloadText, hclose]
  omega

/-- A payload of 4 MiB of the byte 255 is written and not read back. -/
theorem large_frame_refused :
    ∃ stream, writeFrames (onlyFrame (largeFrame (4 * 1024 * 1024 - 1)))
        [largeFrame (4 * 1024 * 1024 - 1)] = .ok stream ∧
      ¬ Yields (onlyFrame (largeFrame (4 * 1024 * 1024 - 1))) stream
        [largeFrame (4 * 1024 * 1024 - 1)] := by
  refine ⟨_, writeFrames_cons_eq_ok.mpr ⟨_, [], rfl, rfl, rfl⟩, ?_⟩
  rintro ⟨rest, hread, -⟩
  obtain ⟨e, he⟩ := readFrame_over (onlyFrame_exact _) rfl
    (Nat.lt_of_le_of_lt (by decide) (largeFrame_text (4 * 1024 * 1024 - 1))) []
  rw [he] at hread
  cases hread

end Rinfra.Trpc
