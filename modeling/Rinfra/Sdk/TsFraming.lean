import Mathlib.Logic.Function.Basic
import Rinfra.Lib.Framing
import Rinfra.Sdk.TsConnections

/-!
# Frames in the TypeScript registry client

`handleData` adds a chunk to `buffered`, which is a field of the client, and
handles the frames that are complete. `JSON.parse` throws for a payload that is
no JSON text, and nothing in the data handler catches that. What it makes of the
other payloads is a parameter.
-/

namespace Rinfra.Sdk.Ts

open Rinfra.Lib Framing

/-- The client at its sockets. What each socket has received, the frames that
were handled for it, and whether an exception has left the data handler are kept
for the statements. -/
structure Wire where
  client : Client
  buffered : Bytes
  received : Nat → Bytes
  delivered : Nat → List Frame
  threw : Bool

inductive WireEvent
  | client (e : Event)
  | data (socket : Nat) (chunk : Bytes)
  deriving DecidableEq

namespace Wire

def init : Wire := ⟨.init, [], fun _ => [], fun _ => [], false⟩

section
variable (parse : Bytes → Option Frame)

/-- The frame is taken off the buffer before it is parsed. -/
def take (c : Nat) (frame : Frame) (rest : Bytes) (s : Wire) : Wire :=
  { s with
    client := after s.client (.frame c frame)
    buffered := rest
    delivered := Function.update s.delivered c (s.delivered c ++ [frame]) }

/-- The loop of `handleData`. -/
def handleFrames (c : Nat) : Nat → Wire → Wire
  | 0, s => s
  | fuel + 1, s =>
    match cutFrame s.buffered with
    | none => s
    | some (payload, rest) =>
      match parse payload with
      | none => { s with buffered := rest, threw := true }
      | some frame => handleFrames c fuel (s.take c frame rest)

/-- Every frame takes bytes off the buffer, so its length bounds the loop. -/
def handleData (c : Nat) (chunk : Bytes) (s : Wire) : Wire :=
  let s' := { s with
    buffered := s.buffered ++ chunk
    received := Function.update s.received c (s.received c ++ chunk) }
  handleFrames parse c s'.buffered.length s'

/-- Frames come by way of `data`. -/
def step (s : Wire) : WireEvent → Option Wire
  | .client (.frame ..) => none
  | .client e => (Ts.step s.client e).map fun client => { s with client }
  | .data c chunk =>
    if c ∈ s.client.live ∧ s.client.Quiet then some (s.handleData parse c chunk) else none

/-- Nothing was thrown, and for each socket the payloads of its complete frames
were handled, those that parse. -/
def Framed (s : Wire) : Prop :=
  s.threw = false ∧ ∀ (c : Nat) (payloads : List Bytes) (rest : Bytes),
    s.received c = payloads.flatMap Framing.frame ++ rest →
    (∀ p ∈ payloads, p.length < 256 ^ 4) → cutFrame rest = none →
    s.delivered c = payloads.filterMap parse

/-- Data arrives when the buffer has what is left of the same socket's bytes, and
the payloads that it completes can be parsed. -/
def Tidy (s : Wire) : WireEvent → Prop
  | .data c chunk => s.buffered = (unframe (s.received c)).2 ∧
      ∀ p ∈ (unframe (s.buffered ++ chunk)).1, (parse p).isSome
  | .client _ => True

instance (s : Wire) : DecidablePred (Tidy parse s) := fun e =>
  match e with
  | .data c chunk => inferInstanceAs (Decidable (s.buffered = (unframe (s.received c)).2 ∧
      ∀ p ∈ (unframe (s.buffered ++ chunk)).1, (parse p).isSome))
  | .client _ => .isTrue trivial

end

variable {parse : Bytes → Option Frame} {s s' : Wire} {c : Nat} {chunk : Bytes}

-- ---------------------------------------------------------------------------
-- The loop
-- ---------------------------------------------------------------------------

theorem handleFrames_of_parse {fuel : Nat} (hfuel : s.buffered.length ≤ fuel)
    (hparse : ∀ p ∈ (unframe s.buffered).1, (parse p).isSome) :
    handleFrames parse c fuel s =
      { s with
        client := ((unframe s.buffered).1.filterMap parse).foldl
          (fun client frame => after client (.frame c frame)) s.client
        buffered := (unframe s.buffered).2
        delivered := Function.update s.delivered c
          (s.delivered c ++ (unframe s.buffered).1.filterMap parse) } := by
  induction fuel generalizing s with
  | zero =>
    have hnil := List.length_eq_zero_iff.mp (Nat.le_zero.mp hfuel)
    have hnone : unframe s.buffered = ([], s.buffered) := by
      rw [hnil]
      rfl
    simp [handleFrames, hnone]
  | succ fuel ih =>
    cases hcut : cutFrame s.buffered with
    | none => simp [handleFrames, hcut, unframe_of_none hcut]
    | some cut =>
      obtain ⟨payload, rest⟩ := cut
      rw [unframe_of_some hcut, List.forall_mem_cons] at hparse
      obtain ⟨frame, hframe⟩ := Option.isSome_iff_exists.mp hparse.1
      have hlength := length_of_cutFrame hcut
      have hrest := ih (s := s.take c frame rest) (by simp only [take]; omega) hparse.2
      rw [handleFrames, hcut]
      simp only [hframe, hrest, unframe_of_some hcut]
      simp [take, hframe]

theorem unframe_received (hbuffer : s.buffered = (unframe (s.received c)).2) :
    unframe (s.received c ++ chunk) =
      ((unframe (s.received c)).1 ++ (unframe (s.buffered ++ chunk)).1,
        (unframe (s.buffered ++ chunk)).2) := by
  rw [unframe_append, hbuffer]

theorem client_of_step {e : Event} (h : s.step parse (.client e) = some s') :
    ∃ client, Ts.step s.client e = some client ∧ s' = { s with client } := by
  cases e with
  | frame => cases h
  | _ =>
    simp only [step, Option.map_eq_some_iff] at h
    obtain ⟨client, hclient, rfl⟩ := h
    exact ⟨client, hclient, rfl⟩

theorem data_of_step (h : s.step parse (.data c chunk) = some s') :
    (c ∈ s.client.live ∧ s.client.Quiet) ∧ s' = s.handleData parse c chunk := by
  simp only [step] at h
  split at h
  · rename_i hen
    exact ⟨hen, (Option.some.inj h).symm⟩
  · cases h

-- ---------------------------------------------------------------------------
-- Every connection by itself
-- ---------------------------------------------------------------------------

/-- For every socket, the frames that were handled are those of its bytes. -/
def Inv (parse : Bytes → Option Frame) (s : Wire) : Prop :=
  s.threw = false ∧ ∀ c, s.delivered c = (unframe (s.received c)).1.filterMap parse

theorem Inv.framed (h : Inv parse s) : Framed parse s := by
  refine ⟨h.1, fun c payloads rest hreceived hlength hrest => ?_⟩
  rw [h.2 c, hreceived, unframe_frames hlength hrest]

theorem Inv.handleData (h : Inv parse s) (htidy : Tidy parse s (.data c chunk)) :
    Inv parse (s.handleData parse c chunk) := by
  obtain ⟨hbuffer, hparse⟩ := htidy
  rw [Wire.handleData, handleFrames_of_parse (Nat.le_refl _) hparse]
  refine ⟨h.1, fun c' => ?_⟩
  by_cases hc : c' = c
  · subst hc
    simp only [Function.update_self]
    rw [unframe_received hbuffer, List.filterMap_append, h.2]
  · simpa [Function.update_of_ne hc] using h.2 c'

theorem Inv.step {e : WireEvent} (h : Inv parse s) (htidy : Tidy parse s e)
    (hstep : s.step parse e = some s') : Inv parse s' := by
  cases e with
  | client e =>
    obtain ⟨client, -, rfl⟩ := client_of_step hstep
    exact h
  | data c chunk =>
    obtain ⟨-, rfl⟩ := data_of_step hstep
    exact h.handleData htidy

/-- However the bytes of the connections are cut into chunks: where no chunk comes
to a buffer with another connection's bytes and no payload is malformed, nothing is
thrown and each connection's frames are handled in their order. -/
theorem frames_of_each (parse : Bytes → Option Frame) (es : List WireEvent)
    (h : Guarded (step parse) (Tidy parse) init es) :
    Always (step parse) (Framed parse) init es := by
  have hinit : Inv parse init := ⟨rfl, fun _ => rfl⟩
  exact (h.invariant hinit fun s e s' hs he hstep => hs.step he hstep).mono fun s hs => hs.framed

def ascii (text : String) : Bytes := text.toList.map fun c => .ofNat c.toNat

def ackText : Bytes := ascii "\x7b\"RegisterAck\":\x7b\"success\":true\x7d\x7d"

/-- `JSON.parse`, on an ack, a ping and what is no JSON text. -/
def parseAcks (payload : Bytes) : Option Frame :=
  if payload = ackText then some (.object ⟨some .accepted, false⟩)
  else if payload = ascii "\"Ping\"" then some .ping
  else none

/-- An ack that is cut within its length comes together with a ping, and the
client connects once more. -/
def cutAnywhere : List WireEvent :=
  let ack := Framing.frame ackText
  [.client .start, .client (.connect 0), .data 0 (ack.take 2),
    .data 0 (ack.drop 2 ++ Framing.frame (ascii "\"Ping\"")), .client (.proceed 0 .accepted),
    .client (.close 0), .client .reconnectTimer, .client (.connect 1), .data 1 ack]

theorem frames_of_each_cutAnywhere :
    (run (step parseAcks) init cutAnywhere).isSome ∧
      Always (step parseAcks) (Framed parseAcks) init cutAnywhere :=
  ⟨by decide +kernel, frames_of_each parseAcks cutAnywhere (by decide +kernel)⟩

/-- A connection ends within a frame, and the next one is sent an ack. -/
def endsWithin : List WireEvent :=
  [.client .start, .client (.connect 0), .data 0 [0, 0, 1, 0], .client (.close 0),
    .client .reconnectTimer, .client (.connect 1), .data 1 (Framing.frame ackText)]

def malformed : List WireEvent :=
  [.client .start, .client (.connect 0), .data 0 (Framing.frame (ascii "\x7b"))]

/-- The ack is taken for the rest of the frame before it; a malformed payload throws. -/
theorem leftover_swallows_ack :
    ((run (step parseAcks) init endsWithin).isSome ∧
      ¬ Always (step parseAcks) (Framed parseAcks) init endsWithin) ∧
    (run (step parseAcks) init malformed).isSome ∧
      ¬ Always (step parseAcks) (Framed parseAcks) init malformed := by
  have hleftover : (run (step parseAcks) init endsWithin).map
      (fun s => (s.received 1, s.delivered 1)) = some (Framing.frame ackText, []) := by
    decide +kernel
  have hmalformed : (run (step parseAcks) init malformed).map Wire.threw = some true := by
    decide +kernel
  refine ⟨⟨by decide +kernel, fun h => ?_⟩, by decide +kernel, fun h => ?_⟩
  · obtain ⟨s, hs, hwire⟩ := Option.map_eq_some_iff.mp hleftover
    obtain ⟨hreceived, hdelivered⟩ := Prod.mk.inj hwire
    have hframed := (h.last hs).2 1 [ackText] [] (by simpa using hreceived) (by decide) rfl
    rw [hdelivered] at hframed
    revert hframed
    decide
  · obtain ⟨s, hs, hthrew⟩ := Option.map_eq_some_iff.mp hmalformed
    have hframed := (h.last hs).1
    rw [hthrew] at hframed
    cases hframed

-- ---------------------------------------------------------------------------
-- Runs of the client
-- ---------------------------------------------------------------------------

theorem chunk_drainOne (client : Client) (m : Received) :
    (client.drainOne m).chunk = client.chunk := by
  unfold Client.drainOne Client.resolve
  split
  · split <;> rfl
  · rfl

theorem chunk_foldl_drainOne (inbox : List Received) (client : Client) :
    (inbox.foldl Client.drainOne client).chunk = client.chunk := by
  induction inbox generalizing client with
  | nil => rfl
  | cons m inbox ih => rw [List.foldl_cons, ih, chunk_drainOne]

theorem chunk_handleFrame (client : Client) (frame : Frame) :
    (client.handleFrame c frame).chunk = client.chunk := by
  cases frame <;>
    simp [Client.handleFrame, Client.drainWaiters, chunk_drainOne, chunk_foldl_drainOne]

theorem live_handleFrame (client : Client) (frame : Frame) :
    (client.handleFrame c frame).live = client.live := by
  rw [kept_handleFrame.eq]

theorem handleFrames_run (fuel : Nat) (s : Wire) (hlive : c ∈ s.client.live)
    (hchunk : s.client.Quiet ∨ s.client.chunk = some c) :
    ∃ es, run Ts.step s.client es = some (handleFrames parse c fuel s).client := by
  induction fuel generalizing s with
  | zero => exact ⟨[], rfl⟩
  | succ fuel ih =>
    unfold handleFrames
    split
    · exact ⟨[], rfl⟩
    · rename_i payload rest hcut
      split
      · exact ⟨[], rfl⟩
      · rename_i frame hframe
        have hstep : Ts.step s.client (.frame c frame) = some (s.take c frame rest).client :=
          actions_eq_some.mpr ⟨⟨hlive, hchunk⟩, rfl⟩
        obtain ⟨es, hes⟩ := ih (s.take c frame rest)
          (by simpa [take, after, live_handleFrame] using hlive)
          (.inr (by simp [take, after, chunk_handleFrame]))
        exact ⟨.frame c frame :: es, run_cons.mpr ⟨_, hstep, hes⟩⟩

/-- What the client does at its sockets is a run of the client on whole frames. -/
theorem reachable_client {es : List WireEvent} (h : run (step parse) init es = some s) :
    Reachable Ts.step Client.init s.client := by
  refine run_invariant (P := fun s => Reachable Ts.step Client.init s.client) ⟨[], rfl⟩ ?_ h
  rintro s e s' ⟨fs, hfs⟩ hstep
  cases e with
  | client e =>
    obtain ⟨client, hclient, rfl⟩ := client_of_step hstep
    exact ⟨fs ++ [e], run_concat.mpr ⟨s.client, hfs, hclient⟩⟩
  | data c chunk =>
    obtain ⟨⟨hlive, hquiet⟩, rfl⟩ := data_of_step hstep
    have hdata : ∃ gs, run Ts.step s.client gs = some (s.handleData parse c chunk).client :=
      handleFrames_run _ { s with
        buffered := s.buffered ++ chunk
        received := Function.update s.received c (s.received c ++ chunk) } hlive (.inl hquiet)
    obtain ⟨gs, hgs⟩ := hdata
    exact ⟨fs ++ gs, by rw [run_append, hfs]; exact hgs⟩

end Wire

end Rinfra.Sdk.Ts
