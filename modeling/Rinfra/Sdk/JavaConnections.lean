import Rinfra.Sdk.JavaClient

/-!
# One connection and one heartbeat in Java

A listener that times out leaves its channel open and schedules a reconnect, and
every registration adds a schedule of pings. What keeps the client to one of
each is that neither happens to a client that goes on.
-/

namespace Rinfra.Sdk.Java

open Rinfra.Lib Client

/-- At most one open channel, one reconnect and one schedule of pings, and no
reaction to the closing of a channel that is not the stored one. -/
structure OneOfEach (s : Client) : Prop where
  channel : s.connecting.length + s.active.length ≤ 1
  reconnect : s.reconnects ≤ 1
  ping : s.pings ≤ 1
  strayed : s.strayed = false

/-- The client is started while no channel of an earlier start has still to be
told of as inactive; no wait for an ack times out while it runs; an ack is taken
while there is no schedule of pings yet; and a channel closes after its listener
has begun. -/
def Careful (s : Client) : Event → Prop
  | .start => ¬ s.running → s.connecting = [] ∧ s.active = []
  | .ackTimeout _ => ¬ s.running ∨ s.authFailed
  | .pollAck _ =>
    s.inbox.head?.map Prod.snd = some (.registerAck true) → s.pings = 0 ∨ s.schedulerDown
  | .inactive c => c ∉ s.ready
  | _ => True

instance : DecidablePred OneOfEach := fun s =>
  decidable_of_iff
    (s.connecting.length + s.active.length ≤ 1 ∧ s.reconnects ≤ 1 ∧ s.pings ≤ 1 ∧
      s.strayed = false)
    ⟨fun h => ⟨h.1, h.2.1, h.2.2.1, h.2.2.2⟩,
      fun h => ⟨h.channel, h.reconnect, h.ping, h.strayed⟩⟩

instance (s : Client) (e : Event) : Decidable (Careful s e) :=
  match e with
  | .start => inferInstanceAs (Decidable (¬ s.running → s.connecting = [] ∧ s.active = []))
  | .ackTimeout _ => inferInstanceAs (Decidable (¬ s.running ∨ s.authFailed))
  | .pollAck _ =>
    inferInstanceAs (Decidable
      (s.inbox.head?.map Prod.snd = some (.registerAck true) → s.pings = 0 ∨ s.schedulerDown))
  | .inactive c => inferInstanceAs (Decidable (c ∉ s.ready))
  | .stop | .stopped | .reconnectTimer | .connected _ | .connectFailed _ | .listener _
  | .arrive .. | .read .. | .listNodes | .pollNodes | .nodesTimeout => .isTrue trivial

/-- A reconnect is only pending while no channel is open, and the one that is
open is the stored one once its listener has begun. -/
structure Orderly (s : Client) : Prop extends OneOfEach s where
  idle : 0 < s.reconnects → s.connecting = [] ∧ s.active = []
  ready : ∀ c ∈ s.ready, c ∈ s.active
  awaiting : ∀ c ∈ s.awaiting, c ∈ s.active ∧ c ∉ s.ready
  current : ∀ c ∈ s.active, c ∉ s.ready → s.channel = some c ∨ s.running = false
  halting : s.halting → s.running = false
  stopped : s.running = false → s.halting = false → s.reconnects = 0

section
variable {s : Client} {c : Channel} {e : Event}

theorem eq_singleton_of_mem {l m : List Channel} (hlen : l.length + m.length ≤ 1) (hc : c ∈ l) :
    l = [c] ∧ m = [] := by
  have hpos := List.length_pos_of_mem hc
  refine ⟨?_, List.eq_nil_of_length_eq_zero (by omega)⟩
  obtain ⟨d, rfl⟩ := List.length_eq_one_iff.mp (show l.length = 1 by omega)
  rw [List.mem_singleton.mp hc]

theorem OneOfEach.of_connecting (h : OneOfEach s) (hc : c ∈ s.connecting) :
    s.connecting = [c] ∧ s.active = [] :=
  eq_singleton_of_mem h.channel hc

theorem OneOfEach.of_active (h : OneOfEach s) (hc : c ∈ s.active) :
    s.connecting = [] ∧ s.active = [c] :=
  (eq_singleton_of_mem (Nat.add_comm _ _ ▸ h.channel) hc).symm

theorem without_singleton : without c [c] = [] := by simp [without]

theorem Orderly.reconnects_eq_zero (h : Orderly s) (hc : c ∈ s.connecting ∨ c ∈ s.active) :
    s.reconnects = 0 := by
  rcases Nat.eq_zero_or_pos s.reconnects with hzero | hpos
  · exact hzero
  · obtain ⟨hconnecting, hactive⟩ := h.idle hpos
    rw [hconnecting, hactive] at hc
    exact hc.elim nofun nofun

theorem Orderly.scheduleReconnect (h : Orderly s) (hconnecting : s.connecting = [])
    (hactive : s.active = []) (hnone : s.reconnects = 0) : Orderly s.scheduleReconnect := by
  unfold Client.scheduleReconnect
  split
  · exact h
  · rename_i hgoes
    have hle : (if s.schedulerDown then s.reconnects else s.reconnects + 1) ≤ 1 := by
      rw [hnone]
      split <;> decide
    exact { h with
      reconnect := hle
      idle := fun _ => ⟨hconnecting, hactive⟩
      stopped := fun hrunning => absurd (.inl (Bool.eq_false_iff.mp hrunning)) hgoes }

theorem Orderly.connectAndRegister (h : Orderly s) (hconnecting : s.connecting = [])
    (hactive : s.active = []) (hnone : s.reconnects = 0) :
    Orderly (s.connectAndRegister initial) := by
  unfold Client.connectAndRegister
  split
  · exact h
  · refine { h with channel := ?_, idle := fun hpos => ?_ }
    · simp [hconnecting, hactive]
    · rw [hnone] at hpos
      cases hpos

/-- A scheduler that is shut down, or a client that does not run, schedules
nothing. -/
theorem Orderly.scheduleReconnect_idle (h : Orderly s)
    (hidle : s.schedulerDown ∨ ¬ s.running ∨ s.authFailed) : Orderly s.scheduleReconnect := by
  unfold Client.scheduleReconnect
  split
  · exact h
  · rename_i hgoes
    have hdown := hidle.resolve_right hgoes
    simp only [hdown, if_true]
    exact { h with }

theorem Orderly.close {before : Client} (h : Orderly s) : Orderly (Client.close c before s) :=
  { h with awaiting := fun d hd => h.awaiting d (mem_without.mp hd).1 }

theorem Orderly.accepted (h : Orderly s) (hping : s.pings = 0 ∨ s.schedulerDown) :
    Orderly (s.accepted c source) := by
  unfold Client.accepted
  refine Orderly.close ?_
  split
  · rename_i hdown
    exact Orderly.scheduleReconnect_idle { h with } (.inl hdown)
  · rename_i hup
    have hnone := hping.resolve_right hup
    exact { h with ping := by simp [hnone] }

theorem Orderly.rejected (h : Orderly s) (hc : c ∈ s.awaiting) : Orderly (s.rejected c) :=
  { h with
    awaiting := fun d hd => h.awaiting d (mem_without.mp hd).1
    current := fun _ _ _ => .inr rfl
    halting := fun _ => rfl
    stopped := fun _ _ => h.reconnects_eq_zero (.inr (h.awaiting c hc).1) }

theorem Orderly.pollAck (h : Orderly s) (hc : c ∈ s.awaiting)
    (hcareful : Careful s (.pollAck c)) : Orderly (s.pollAck c) := by
  unfold Client.pollAck
  split
  · exact h
  · rename_i source success rest hinbox
    cases success with
    | true => exact Orderly.accepted { h with } (hcareful (by rw [hinbox]; rfl))
    | false => exact Orderly.rejected { h with } hc
  · exact { h with }

theorem Orderly.pollNodes (h : Orderly s) : Orderly s.pollNodes := by
  unfold Client.pollNodes
  split
  · exact h
  · exact { h with }
  · exact { h with }

theorem Orderly.receive (h : Orderly s) : Orderly (s.receive c msg) := by
  cases msg <;> exact { h with }

theorem Orderly.register (h : Orderly s) (hc : c ∈ s.ready) : Orderly (s.register c) := by
  obtain ⟨-, hactive⟩ := h.of_active (h.ready c hc)
  refine { h with ready := fun d hd => ?_, awaiting := fun d hd => ?_, current := fun d hd _ => ?_ }
  · exact h.ready d (mem_without.mp hd).1
  · rcases List.mem_cons.mp hd with rfl | hold
    · exact ⟨h.ready d hc, fun hready => (mem_without.mp hready).2 rfl⟩
    · exact ⟨(h.awaiting d hold).1, fun hready => (h.awaiting d hold).2 (mem_without.mp hready).1⟩
  · have hdc : d = c := List.mem_singleton.mp (hactive ▸ hd)
    exact .inl (congrArg some hdc.symm)

theorem Orderly.connected (h : Orderly s) (hc : c ∈ s.connecting) :
    Orderly (after s (.connected c)) := by
  obtain ⟨hconnecting, hactive⟩ := h.of_connecting hc
  have hzero := h.reconnects_eq_zero (.inl hc)
  refine { h with
    channel := ?_
    idle := fun hpos => absurd hzero (Nat.ne_of_gt hpos)
    ready := fun d hd => ?_
    awaiting := fun d hd => ?_
    current := fun d hd hready => ?_ }
  · simp [after, hconnecting, hactive, without_singleton]
  · rcases List.mem_cons.mp hd with rfl | hold
    · exact List.mem_cons_self
    · exact List.mem_cons_of_mem c (h.ready d hold)
  · have hd := (h.awaiting d hd).1
    rw [hactive] at hd
    cases hd
  · rw [show d = c by simpa [after, hactive] using hd] at hready
    exact absurd List.mem_cons_self hready

theorem Orderly.connectFailed (h : Orderly s) (hc : c ∈ s.connecting) :
    Orderly (after s (.connectFailed c)) := by
  obtain ⟨hconnecting, hactive⟩ := h.of_connecting hc
  have hnone : without c s.connecting = [] := by rw [hconnecting, without_singleton]
  have hclosed : Orderly { s with connecting := without c s.connecting } := { h with
    channel := by simp [hnone, hactive]
    idle := fun _ => ⟨hnone, hactive⟩ }
  exact hclosed.scheduleReconnect hnone hactive (h.reconnects_eq_zero (.inl hc))

theorem Orderly.inactive (h : Orderly s) (hc : c ∈ s.active) (hfree : s.Free c)
    (hready : c ∉ s.ready) : Orderly (s.inactive c) := by
  obtain ⟨hconnecting, hactive⟩ := h.of_active hc
  have hnone : without c s.active = [] := by rw [hactive, without_singleton]
  have honly : ∀ d ∈ s.active, d = c := fun d hd => List.mem_singleton.mp (hactive ▸ hd)
  have hclosed : Orderly { s with active := without c s.active } := { h with
    channel := by simp [hnone, hconnecting]
    idle := fun _ => ⟨hconnecting, hnone⟩
    ready := fun d hd => absurd (honly d (h.ready d hd) ▸ hd) hready
    awaiting := fun d hd => absurd (honly d (h.awaiting d hd).1 ▸ rfl) (hfree d hd)
    current := fun d hd => absurd (hnone ▸ hd) List.not_mem_nil }
  have hzero := h.reconnects_eq_zero (.inr hc)
  unfold Client.inactive
  split
  · rename_i hgoes
    have hstored := (h.current c hc hready).resolve_right (by simp [hgoes.1])
    have hafter := hclosed.scheduleReconnect hconnecting hnone hzero
    exact { hafter with strayed := by simp [h.strayed, hstored] }
  · exact { hclosed with strayed := by simp [h.strayed] }

theorem Orderly.start (h : Orderly s) (hhalting : ¬ s.halting) (hcareful : Careful s .start) :
    Orderly s.start := by
  unfold Client.start
  split
  · exact h
  · rename_i hstopped
    obtain ⟨hconnecting, hactive⟩ := hcareful hstopped
    have hzero := h.stopped (by simpa using hstopped) (by simpa using hhalting)
    have hstarted :
        Orderly { s with running := true, authFailed := false, loop := s.loop + 1 } :=
      { h with
        current := fun d hd => absurd (hactive ▸ hd) List.not_mem_nil
        halting := fun hhalting' => absurd hhalting' hhalting
        stopped := nofun }
    exact hstarted.connectAndRegister hconnecting hactive hzero

theorem Orderly.reconnectTimer (h : Orderly s) (hpos : 0 < s.reconnects) :
    Orderly (after s .reconnectTimer) := by
  obtain ⟨hconnecting, hactive⟩ := h.idle hpos
  have hle := h.reconnect
  have hzero : s.reconnects - 1 = 0 := by omega
  have hfired : Orderly { s with reconnects := s.reconnects - 1 } := { h with
    reconnect := by simp [hzero]
    idle := fun _ => ⟨hconnecting, hactive⟩
    stopped := fun _ _ => hzero }
  exact hfired.connectAndRegister hconnecting hactive hzero

theorem Orderly.after (h : Orderly s) (hen : Enabled s e) (hcareful : Careful s e) :
    Orderly (after s e) := by
  cases e with
  | start => exact h.start hen hcareful
  | stop =>
    exact { h with
      current := fun _ _ _ => .inr rfl
      halting := fun _ => rfl
      stopped := fun _ => nofun }
  | stopped =>
    exact { h with
      reconnect := Nat.zero_le 1
      ping := Nat.zero_le 1
      idle := nofun
      current := fun _ _ _ => .inr (h.halting hen)
      halting := nofun
      stopped := fun _ _ => rfl }
  | reconnectTimer => exact h.reconnectTimer hen
  | connected c => exact h.connected hen.1
  | connectFailed c => exact h.connectFailed hen.1
  | listener c => exact h.register hen.1
  | pollAck c => exact h.pollAck hen hcareful
  | ackTimeout c => exact (h.scheduleReconnect_idle (.inr hcareful)).close
  | arrive c msg => exact { h with }
  | read c msg => exact h.receive
  | inactive c => exact h.inactive hen.1 hen.2 hcareful
  | listNodes => exact { h with }
  | pollNodes => exact h.pollNodes
  | nodesTimeout => exact { h with }

end

/-- A client whose events are all careful keeps one connection, one reconnect
and one schedule of pings in every state of every run. -/
theorem one_of_each (es : List Event) (h : Guarded step Careful Client.init es) :
    Always step OneOfEach Client.init es := by
  have hinit : Orderly Client.init := {
    channel := Nat.zero_le 1
    reconnect := Nat.zero_le 1
    ping := Nat.zero_le 1
    strayed := rfl
    idle := nofun
    ready := nofun
    awaiting := nofun
    current := nofun
    halting := nofun
    stopped := fun _ _ => rfl }
  refine (h.invariant hinit fun s e s' hs he hstep => ?_).mono fun s hs => hs.toOneOfEach
  obtain ⟨hen, rfl⟩ := actions_eq_some.mp hstep
  exact hs.after hen he

/-- Connected, registered by an ack that was read before the listener ran, and
connected once more after the channel has closed. -/
def reconnected : List Event :=
  [.start, .connected ⟨0, 1⟩, .arrive ⟨0, 1⟩ (.registerAck true), .read ⟨0, 1⟩ (.registerAck true),
    .listener ⟨0, 1⟩, .pollAck ⟨0, 1⟩, .inactive ⟨0, 1⟩, .reconnectTimer, .connected ⟨1, 1⟩]

theorem one_of_each_reconnected :
    (run step Client.init reconnected).isSome ∧ Always step OneOfEach Client.init reconnected :=
  ⟨by decide +kernel, one_of_each reconnected (by decide +kernel)⟩

/-- The first channel is still open when the reconnect opens the second. -/
theorem two_channels_open :
    let events := [.start, .connected ⟨0, 1⟩, .listener ⟨0, 1⟩, .ackTimeout ⟨0, 1⟩, .reconnectTimer]
    (run step Client.init events).isSome ∧ ¬ Always step OneOfEach Client.init events := by
  decide +kernel

end Rinfra.Sdk.Java
