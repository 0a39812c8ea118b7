import Rinfra.Sdk.GoClient

/-!
# Closed once, and one connection in Go

A channel is closed by whoever found it open, and a `handleDisconnect` sets the
state long after it has looked at the connection. Both are safe where nobody else
comes in between, and a line is safe where it is the only one.
-/

namespace Rinfra.Sdk.Go

open Rinfra.Lib Client

/-- No channel is closed twice, no stale `handleDisconnect` changes the state, and
a healthy connection stays the only one. -/
structure Safe (s : Client) : Prop where
  pings : s.pingCloses.Nodup
  readers : s.readerCloses.Nodup
  strayed : s.strayed = false
  switched : s.switched = false
  second : s.second = false

instance : DecidablePred Safe := fun s =>
  decidable_of_iff
    (s.pingCloses.Nodup ∧ s.readerCloses.Nodup ∧ s.strayed = false ∧ s.switched = false ∧
      s.second = false)
    ⟨fun h => ⟨h.1, h.2.1, h.2.2.1, h.2.2.2.1, h.2.2.2.2⟩,
      fun h => ⟨h.pings, h.readers, h.strayed, h.switched, h.second⟩⟩

-- ---------------------------------------------------------------------------
-- What threads are about to do
-- ---------------------------------------------------------------------------

/-- It has found the client running, and may still set the state. -/
def LoopPhase.armed : LoopPhase → Bool
  | .checking armed | .closing armed | .closeConn armed | .looking armed => armed
  | .setting => true
  | .looping | .locking | .leaving => false

def LoopPhase.isClosing : LoopPhase → Bool
  | .closing _ => true
  | _ => false

namespace Thread

def isLine : Thread → Bool
  | .line _ => true
  | _ => false

def isStop : Thread → Bool
  | .stop _ => true
  | _ => false

def isArmed : Thread → Bool
  | .loop l => l.phase.armed
  | _ => false

/-- The `pingDone` it is about to close. -/
def closes : Thread → Option Nat
  | .stop (.closing pingDone _) => some pingDone
  | .loop l => if l.phase.isClosing then some l.pingDone else none
  | _ => none

/-- The `pingDone` it is about to look at. -/
def checks : Thread → Option Nat
  | .stop (.checking pingDone _) => some pingDone
  | .loop l =>
    match l.phase with
    | .checking _ => some l.pingDone
    | _ => none
  | _ => none

def done : Thread → Option Nat
  | .loop l => l.done
  | _ => none

def installs : Thread → Bool
  | .line (.dialed ..) => true
  | _ => false

def reports : Thread → Option Nat
  | .loop l => if l.phase = .locking then some l.conn else none
  | _ => none

end Thread

/-- A thread finds a `pingDone` open only while no other is about to close it. A
connection is only installed while no `handleDisconnect` may still set the state,
and its end is only reported while no other connection is installed. The
reconnect loop looks at the state while no `Stop` is about to lock, and the client
is started once no line and no `Stop` of before is left. -/
def Careful (s : Client) : Event → Prop
  | .start => ¬ s.running →
    ∀ j < s.spawned, (s.threads j).isLine = false ∧ (s.threads j).isStop = false
  | .step i =>
    (∀ pingDone ∈ (s.threads i).checks, pingDone ∉ s.pingCloses →
      ∀ j < s.spawned, (s.threads j).closes ≠ some pingDone) ∧
    ((s.threads i).installs → s.running → ∀ j < s.spawned, (s.threads j).isArmed = false) ∧
    (∀ conn ∈ (s.threads i).reports, s.running → s.conn = none ∨ s.conn = some conn) ∧
    (s.threads i = .line .loopLook → ∀ j < s.spawned, s.threads j ≠ .stop .locking)
  | _ => True

instance (s : Client) (e : Event) : Decidable (Careful s e) :=
  match e with
  | .start =>
    inferInstanceAs (Decidable (¬ s.running →
      ∀ j < s.spawned, (s.threads j).isLine = false ∧ (s.threads j).isStop = false))
  | .step i =>
    inferInstanceAs (Decidable (
      (∀ pingDone ∈ (s.threads i).checks, pingDone ∉ s.pingCloses →
        ∀ j < s.spawned, (s.threads j).closes ≠ some pingDone) ∧
      ((s.threads i).installs → s.running → ∀ j < s.spawned, (s.threads j).isArmed = false) ∧
      (∀ conn ∈ (s.threads i).reports, s.running → s.conn = none ∨ s.conn = some conn) ∧
      (s.threads i = .line .loopLook → ∀ j < s.spawned, s.threads j ≠ .stop .locking)))
  | .stop | .dial .. | .ack .. | .fail _ | .quit _ | .lose _ => .isTrue trivial

-- ---------------------------------------------------------------------------
-- The invariant
-- ---------------------------------------------------------------------------

/-- Some `Stop` has set the state and is about to lock. -/
def Client.StopLocking (s : Client) : Prop := ∃ j, s.threads j = .stop .locking

/-- While its current connection is healthy the client is connected, unless it is
being stopped. -/
def Client.Settled (s : Client) : Prop := s.Healthy → s.state = .connected ∨ s.StopLocking

/-- No `readLoop` has the current `readerDone` yet. -/
structure Client.Unused (s : Client) : Prop where
  readers : s.readerDone < s.readers
  closes : s.readerDone ∉ s.readerCloses
  done : ∀ j, (s.threads j).done ≠ some s.readerDone

/-- A line is looking for a connection only while there is no healthy one; while
it registers, the current one is its own. -/
def Line.Ok (s : Client) : Line → Prop
  | .setConnecting _ | .dialing _ | .dialed .. | .failed _ | .setReconnecting => ¬ s.Healthy
  | .setRegistering conn _ | .registering conn _ | .setConnected conn =>
    (∀ d ∈ s.conn, d = conn) ∧ s.Unused
  | .spawnReader _ => s.Settled ∧ s.Unused
  | .spawnPing _ | .loopTop | .loopLook => s.Settled

/-- A `Stop` that has locked has stopped the client. -/
def Stop.Ok (s : Client) : Stop → Prop
  | .locking => True
  | .closing pingDone _ => s.running = false ∧ pingDone ∉ s.pingCloses
  | .notRunning | .checking .. | .closeConn _ | .waiting => s.running = false

/-- A `handleDisconnect` that may set the state has left no current connection. -/
structure Loop.Ok (s : Client) (l : Loop) : Prop where
  armed : l.phase.armed → s.conn = none
  closing : l.phase.isClosing → l.pingDone ∉ s.pingCloses
  done : ∀ r ∈ l.done, r < s.readers ∧ r ∉ s.readerCloses

def Thread.Ok (s : Client) : Thread → Prop
  | .absent => True
  | .line phase => phase.Ok s
  | .stop phase => phase.Ok s
  | .loop l => l.Ok s

/-- Two threads that must not be there at once. -/
def Clash (t u : Thread) : Prop :=
  (t.isLine ∧ u.isLine) ∨ (∃ pd, t.closes = some pd ∧ u.closes = some pd) ∨
    ∃ r, t.done = some r ∧ u.done = some r

structure Orderly (s : Client) : Prop extends Safe s where
  fresh : ∀ i, s.spawned ≤ i → s.threads i = .absent
  ok : ∀ i, (s.threads i).Ok s
  apart : ∀ i j, i ≠ j → ¬ Clash (s.threads i) (s.threads j)
  halted : s.running = false → ¬ s.Healthy
  known : ∀ r ∈ s.readerCloses, r < s.readers

section
variable {s s' : Client} {i j : Nat} {t u : Thread}

theorem Clash.symm (h : Clash t u) : Clash u t := by
  rcases h with ⟨ht, hu⟩ | ⟨pd, ht, hu⟩ | ⟨r, ht, hu⟩
  · exact .inl ⟨hu, ht⟩
  · exact .inr (.inl ⟨pd, hu, ht⟩)
  · exact .inr (.inr ⟨r, hu, ht⟩)

/-- A thread that is about to do no more than before. -/
structure Fewer (t' t : Thread) : Prop where
  line : t'.isLine → t.isLine
  closes : ∀ pd, t'.closes = some pd → t.closes = some pd
  done : ∀ r, t'.done = some r → t.done = some r

theorem Fewer.clash {t' : Thread} (h : Fewer t' t) (hclash : Clash t' u) : Clash t u := by
  rcases hclash with ⟨ht, hu⟩ | ⟨pd, ht, hu⟩ | ⟨r, ht, hu⟩
  · exact .inl ⟨h.line ht, hu⟩
  · exact .inr (.inl ⟨pd, h.closes pd ht, hu⟩)
  · exact .inr (.inr ⟨r, h.done r ht, hu⟩)

theorem Orderly.move (h : Orderly s) (hthreads : s'.threads = Function.update s.threads i t)
    (hle : s.spawned ≤ s'.spawned) (hi : i < s'.spawned) (hsafe : Safe s') (hok : t.Ok s')
    (hothers : ∀ j, j ≠ i → (s.threads j).Ok s')
    (hapart : ∀ j, j ≠ i → ¬ Clash t (s.threads j))
    (hhalted : s'.running = false → ¬ s'.Healthy)
    (hknown : ∀ r ∈ s'.readerCloses, r < s'.readers) : Orderly s' := by
  refine { hsafe with
    fresh := fun j hj => ?_
    ok := fun j => ?_
    apart := fun j k hjk => ?_
    halted := hhalted
    known := hknown }
  · rw [hthreads, Function.update_of_ne (Nat.ne_of_gt (Nat.lt_of_lt_of_le hi hj))]
    exact h.fresh j (Nat.le_trans hle hj)
  · rw [hthreads]
    by_cases hj : j = i
    · rw [hj, Function.update_self]
      exact hok
    · rw [Function.update_of_ne hj]
      exact hothers j hj
  · rw [hthreads]
    by_cases hj : j = i
    · subst hj
      rw [Function.update_self, Function.update_of_ne hjk.symm]
      exact hapart k hjk.symm
    · rw [Function.update_of_ne hj]
      by_cases hk : k = i
      · subst hk
        rw [Function.update_self]
        exact fun hclash => hapart j hj hclash.symm
      · rw [Function.update_of_ne hk]
        exact h.apart j k hjk

-- ---------------------------------------------------------------------------
-- What the other threads rely on
-- ---------------------------------------------------------------------------

/-- For calls of `Stop` and for loops. -/
structure Keeps (s s' : Client) : Prop where
  running : s.running = false → s'.running = false
  conn : s.conn = none → s'.conn = none
  pingCloses : s'.pingCloses = s.pingCloses
  readers : s.readers ≤ s'.readers
  readerCloses : s'.readerCloses = s.readerCloses

/-- For a line. -/
structure KeepsLine (s s' : Client) : Prop where
  healthy : s'.Healthy → s.Healthy
  conn : ∀ d ∈ s'.conn, d ∈ s.conn
  settled : s.Settled → s'.Settled
  unused : s.Unused → s'.Unused

theorem Stop.Ok.keep {phase : Stop} (h : phase.Ok s) (hk : Keeps s s') : phase.Ok s' := by
  cases phase with
  | locking => trivial
  | closing pd conn => exact ⟨hk.running h.1, hk.pingCloses ▸ h.2⟩
  | notRunning => exact hk.running h
  | checking => exact hk.running h
  | closeConn => exact hk.running h
  | waiting => exact hk.running h

theorem Loop.Ok.keep {l : Loop} (h : l.Ok s) (hk : Keeps s s') : l.Ok s' where
  armed := fun harmed => hk.conn (h.armed harmed)
  closing := fun hclosing => hk.pingCloses ▸ h.closing hclosing
  done := fun r hr =>
    ⟨Nat.lt_of_lt_of_le (h.done r hr).1 hk.readers, hk.readerCloses ▸ (h.done r hr).2⟩

theorem Line.Ok.keep {phase : Line} (h : phase.Ok s) (hk : KeepsLine s s') : phase.Ok s' := by
  cases phase with
  | setConnecting | dialing | dialed | failed | setReconnecting =>
    exact fun hhealthy => h (hk.healthy hhealthy)
  | setRegistering | registering | setConnected =>
    exact ⟨fun d hd => h.1 d (hk.conn d hd), hk.unused h.2⟩
  | spawnReader => exact ⟨hk.settled h.1, hk.unused h.2⟩
  | spawnPing | loopTop | loopLook => exact hk.settled h

theorem Thread.Ok.keep_other (h : t.Ok s) (hline : t.isLine = false) (hk : Keeps s s') :
    t.Ok s' := by
  cases t with
  | absent => trivial
  | line => cases hline
  | stop phase => exact Stop.Ok.keep h hk
  | loop l => exact Loop.Ok.keep h hk

theorem Thread.Ok.keep (h : t.Ok s) (hk : Keeps s s') (hl : KeepsLine s s') : t.Ok s' := by
  cases t with
  | absent => trivial
  | line phase => exact Line.Ok.keep h hl
  | stop phase => exact Stop.Ok.keep h hk
  | loop l => exact Loop.Ok.keep h hk

theorem Orderly.not_line (h : Orderly s) (hline : (s.threads i).isLine) (hj : j ≠ i) :
    (s.threads j).isLine = false :=
  Bool.eq_false_iff.mpr fun hj' => h.apart j i hj (.inl ⟨hj', hline⟩)

theorem Orderly.lt_spawned (h : Orderly s) (hi : s.threads i = t) (ht : t ≠ .absent) :
    i < s.spawned :=
  Nat.lt_of_not_le fun hle => ht (hi ▸ h.fresh i hle)

theorem Orderly.forall_threads (h : Orderly s) {p : Thread → Prop} (habsent : p .absent)
    (hp : ∀ j < s.spawned, p (s.threads j)) (j : Nat) : p (s.threads j) := by
  rcases Nat.lt_or_ge j s.spawned with hj | hj
  · exact hp j hj
  · rwa [h.fresh j hj]

theorem Orderly.move_line (h : Orderly s) (hline : (s.threads i).isLine)
    (hthreads : s'.threads = Function.update s.threads i t) (hspawned : s'.spawned = s.spawned)
    (hsafe : Safe s') (hok : t.Ok s') (hfewer : Fewer t (s.threads i)) (hk : Keeps s s')
    (hhalted : s'.running = false → ¬ s'.Healthy) : Orderly s' := by
  have hi : i < s.spawned := h.lt_spawned rfl fun habsent => by
    rw [habsent] at hline
    cases hline
  refine h.move hthreads (Nat.le_of_eq hspawned.symm) (hspawned ▸ hi) hsafe hok ?_ ?_ hhalted ?_
  · exact fun j hj => (h.ok j).keep_other (h.not_line hline hj) hk
  · exact fun j hj hclash => h.apart i j hj.symm (hfewer.clash hclash)
  · exact fun r hr => Nat.lt_of_lt_of_le (h.known r (hk.readerCloses ▸ hr)) hk.readers

theorem Orderly.move_other (h : Orderly s) (hi : i < s.spawned)
    (hthreads : s'.threads = Function.update s.threads i t) (hspawned : s'.spawned = s.spawned)
    (hsafe : Safe s') (hok : t.Ok s') (hapart : ∀ j, j ≠ i → ¬ Clash t (s.threads j))
    (hk : Keeps s s') (hl : KeepsLine s s')
    (hhalted : s'.running = false → ¬ s'.Healthy) : Orderly s' := by
  refine h.move hthreads (Nat.le_of_eq hspawned.symm) (hspawned ▸ hi) hsafe hok ?_ hapart hhalted ?_
  · exact fun j _ => (h.ok j).keep hk hl
  · exact fun r hr => Nat.lt_of_lt_of_le (h.known r (hk.readerCloses ▸ hr)) hk.readers

theorem Client.StopLocking.update (h : s.StopLocking) (hi : s.threads i ≠ .stop .locking)
    (hthreads : s'.threads = Function.update s.threads i t) : s'.StopLocking := by
  obtain ⟨j, hj⟩ := h
  refine ⟨j, ?_⟩
  rw [hthreads, Function.update_of_ne, hj]
  rintro rfl
  exact hi hj

theorem Client.Settled.update (h : s.Settled) (hi : s.threads i ≠ .stop .locking)
    (hthreads : s'.threads = Function.update s.threads i t) (hstate : s'.state = s.state)
    (hhealthy : s'.Healthy → s.Healthy) : s'.Settled := by
  intro hs'
  rcases h (hhealthy hs') with hconn | hlocking
  · exact .inl (hstate.trans hconn)
  · exact .inr (hlocking.update hi hthreads)

theorem Client.Settled.of_not_healthy (h : ¬ s.Healthy) : s.Settled := fun hs => absurd hs h

theorem Client.Unused.update (h : s.Unused)
    (hthreads : s'.threads = Function.update s.threads i t)
    (hdone : t.done ≠ some s.readerDone) (hreaderDone : s'.readerDone = s.readerDone)
    (hreaders : s'.readers = s.readers) (hcloses : s'.readerCloses = s.readerCloses) :
    s'.Unused := by
  refine ⟨hreaderDone ▸ hreaders ▸ h.readers, hreaderDone ▸ hcloses ▸ h.closes, fun j => ?_⟩
  rw [hreaderDone, hthreads]
  by_cases hj : j = i
  · rwa [hj, Function.update_self]
  · rw [Function.update_of_ne hj]
    exact h.done j

theorem safe_setReconnecting (h : Safe s) (hs : ¬ s.Healthy) : Safe s.setReconnecting :=
  { h with switched := by simp [Client.setReconnecting, h.switched, hs] }

-- ---------------------------------------------------------------------------
-- Lines
-- ---------------------------------------------------------------------------

theorem fewer_line {phase phase' : Line} : Fewer (.line phase') (.line phase) :=
  ⟨fun _ => rfl, nofun, nofun⟩

theorem fewer_absent : Fewer .absent t := ⟨nofun, nofun, nofun⟩

/-- Nothing but the thread, the state and what is known of it changes. -/
theorem Orderly.line_state {phase : Line} {st : ConnectionState} {sw : Bool} (h : Orderly s)
    (hphase : s.threads i = .line phase) (hfewer : Fewer t (.line phase))
    (hsafe : Safe { s with state := st, switched := sw })
    (hok : t.Ok (setThread i t { s with state := st, switched := sw })) :
    Orderly (setThread i t { s with state := st, switched := sw }) :=
  h.move_line (by rw [hphase]; rfl) rfl rfl { hsafe with } hok (hphase ▸ hfewer)
    ⟨id, id, rfl, Nat.le_refl _, rfl⟩ h.halted

theorem Orderly.line_only {phase : Line} (h : Orderly s) (hphase : s.threads i = .line phase)
    (hfewer : Fewer t (.line phase)) (hok : t.Ok (s.setThread i t)) :
    Orderly (s.setThread i t) :=
  h.line_state hphase hfewer h.toSafe hok

theorem Client.Settled.line {phase : Line} (h : s.Settled)
    (hphase : s.threads i = .line phase) : (s.setThread i t).Settled :=
  h.update (by rw [hphase]; exact nofun) rfl rfl id

theorem healthy_of_close {cs : List Nat}
    (h : Client.Healthy { s with closed := cs ++ s.closed }) : s.Healthy := by
  obtain ⟨d, hd, hopen, hwhole⟩ := h
  exact ⟨d, hd, fun hmem => hopen (List.mem_append_right _ hmem), hwhole⟩

theorem Orderly.ok_line {phase : Line} (h : Orderly s) (hphase : s.threads i = .line phase) :
    phase.Ok s := by
  have hok := h.ok i
  rwa [hphase] at hok

theorem Orderly.ok_stop {phase : Stop} (h : Orderly s) (hphase : s.threads i = .stop phase) :
    phase.Ok s := by
  have hok := h.ok i
  rwa [hphase] at hok

theorem Orderly.ok_loop {l : Loop} (h : Orderly s) (hphase : s.threads i = .loop l) :
    l.Ok s := by
  have hok := h.ok i
  rwa [hphase] at hok

theorem Stop.Ok.halted {phase : Stop} (h : phase.Ok s) (hphase : phase ≠ .locking) :
    s.running = false := by
  cases phase with
  | locking => exact absurd rfl hphase
  | closing => exact h.1
  | notRunning | checking | closeConn | waiting => exact h

theorem Orderly.done_lt (h : Orderly s) {r : Nat} (hr : (s.threads j).done = some r) :
    r < s.readers := by
  cases ht : s.threads j with
  | absent | line | stop =>
    rw [ht] at hr
    cases hr
  | loop l =>
    rw [ht] at hr
    exact ((h.ok_loop ht).done r hr).1

theorem Orderly.install {c : Nat} {initial : Bool} (h : Orderly s)
    (hphase : s.threads i = .line (.dialed c initial)) (hcareful : Careful s (.step i)) :
    Orderly (s.install i c initial) := by
  have hline : (s.threads i).isLine := by rw [hphase]; rfl
  have hs : ¬ s.Healthy := h.ok_line hphase
  unfold Client.install
  split
  · rename_i hrunning
    have hunarmed : ∀ j, (s.threads j).isArmed = false :=
      h.forall_threads (p := fun t => t.isArmed = false) rfl
        (hcareful.2.1 (by rw [hphase]; rfl) hrunning)
    refine h.move rfl (Nat.le_refl _) (h.lt_spawned hphase nofun) { h.toSafe with } ⟨?_, ?_⟩
      (fun j hj => ?_) (fun j hj hclash => ?_) ?_ ?_
    · rintro d ⟨⟩
      rfl
    · refine ⟨Nat.lt_succ_self _, fun hmem => Nat.lt_irrefl _ (h.known _ hmem), fun j => ?_⟩
      by_cases hj : j = i
      · subst hj
        simp [setThread, Thread.done]
      · simp only [setThread, Function.update_of_ne hj]
        exact fun hdone => Nat.lt_irrefl _ (h.done_lt hdone)
    · cases ht : s.threads j with
      | absent => trivial
      | line =>
        have hnot := h.not_line hline hj
        rw [ht] at hnot
        cases hnot
      | stop phase =>
        cases phase with
        | locking => trivial
        | notRunning | checking | closing | closeConn | waiting =>
          rw [(h.ok_stop ht).halted nofun] at hrunning
          cases hrunning
      | loop l =>
        have hok := h.ok_loop ht
        have hnot := hunarmed j
        rw [ht] at hnot
        exact {
          armed := fun harmed => absurd harmed (Bool.eq_false_iff.mp hnot)
          closing := hok.closing
          done := fun r hr => ⟨Nat.lt_succ_of_lt (hok.done r hr).1, (hok.done r hr).2⟩ }
    · exact h.apart i j hj.symm (hphase ▸ fewer_line.clash hclash)
    · exact fun hhalt => absurd hrunning (Bool.eq_false_iff.mp hhalt)
    · exact fun r hr => Nat.lt_succ_of_lt (h.known r hr)
  · have hclosed : ¬ Client.Healthy { s with closed := [c] ++ s.closed } :=
      fun hs' => hs (healthy_of_close hs')
    exact h.move_line hline rfl rfl { h.toSafe with } hclosed (hphase ▸ fewer_line)
      ⟨id, id, rfl, Nat.le_refl _, rfl⟩ fun _ => hclosed

theorem Orderly.spawn_loop {phase : Line} {l : Loop} (h : Orderly s)
    (hphase : s.threads i = .line phase) (hok : phase.Ok (s.spawn (.loop l)))
    (hlooping : l.phase = .looping)
    (hdone : ∀ r ∈ l.done, r < s.readers ∧ r ∉ s.readerCloses ∧
      ∀ j, (s.threads j).done ≠ some r) : Orderly (s.spawn (.loop l)) := by
  have hline : (s.threads i).isLine := by rw [hphase]; rfl
  refine h.move rfl (Nat.le_succ _) (Nat.lt_succ_self _) { h.toSafe with } ⟨?_, ?_, ?_⟩
    (fun j hj => ?_) (fun j hj hclash => ?_) h.halted h.known
  · rw [hlooping]
    exact nofun
  · rw [hlooping]
    exact nofun
  · exact fun r hr => ⟨(hdone r hr).1, (hdone r hr).2.1⟩
  · by_cases hji : j = i
    · subst hji
      rw [hphase]
      exact hok
    · exact (h.ok j).keep_other (h.not_line hline hji) ⟨id, id, rfl, Nat.le_refl _, rfl⟩
  · rcases hclash with ⟨hl, -⟩ | ⟨pd, hl, -⟩ | ⟨r, hl, hj⟩
    · cases hl
    · rw [Thread.closes, hlooping] at hl
      cases hl
    · exact (hdone r hl).2.2 j hj

theorem Orderly.settled_spawn (h : Orderly s) (hs : s.Settled) : (s.spawn t).Settled :=
  hs.update (by rw [h.fresh _ (Nat.le_refl _)]; exact nofun) rfl rfl id

theorem Orderly.stepLine {phase : Line} (h : Orderly s) (hphase : s.threads i = .line phase)
    (hcareful : Careful s (.step i)) : Orderly (s.stepLine i phase) := by
  have hline : (s.threads i).isLine := by rw [hphase]; rfl
  have hok := h.ok_line hphase
  have hunused : ∀ phase', s.Unused → (s.setThread i (.line phase')).Unused :=
    fun phase' hs => hs.update rfl nofun rfl rfl rfl
  cases phase with
  | setConnecting initial =>
    cases initial with
    | true => exact h.line_state hphase fewer_line { h.toSafe with } hok
    | false => exact h.line_state hphase fewer_line (safe_setReconnecting h.toSafe hok) hok
  | setReconnecting => exact h.line_state hphase fewer_line (safe_setReconnecting h.toSafe hok) hok
  | dialing | registering => exact h
  | dialed c initial => exact h.install hphase hcareful
  | setRegistering c initial =>
    refine h.line_state hphase fewer_line { h.toSafe with } ⟨hok.1, ?_⟩
    exact { hunused _ hok.2 with }
  | setConnected c =>
    refine h.line_state hphase fewer_line { h.toSafe with } ⟨fun _ => .inl rfl, ?_⟩
    exact { hunused _ hok.2 with }
  | spawnReader c =>
    have h' : Orderly (s.setThread i (.line (.spawnPing c))) :=
      h.line_only hphase fewer_line (hok.1.line hphase)
    have hu := hunused (.spawnPing c) hok.2
    refine h'.spawn_loop (Function.update_self i _ _) (h'.settled_spawn (hok.1.line hphase)) rfl ?_
    rintro r ⟨⟩
    exact ⟨hu.readers, hu.closes, hu.done⟩
  | spawnPing c =>
    have h' : Orderly (s.setThread i (.line .loopTop)) :=
      h.line_only hphase fewer_line (hok.line hphase)
    exact h'.spawn_loop (Function.update_self i _ _) (h'.settled_spawn (hok.line hphase)) rfl nofun
  | failed initial =>
    cases initial with
    | true =>
      exact h.move_line hline rfl rfl { h.toSafe with } trivial fewer_absent
        ⟨fun _ => rfl, id, rfl, Nat.le_refl _, rfl⟩ fun _ => hok
    | false => exact h.line_only hphase fewer_line (.of_not_healthy hok)
  | loopTop =>
    unfold Client.stepLine
    dsimp only
    split
    · exact h.line_only hphase fewer_absent trivial
    · exact h.line_only hphase fewer_line (hok.line hphase)
  | loopLook =>
    unfold Client.stepLine
    dsimp only
    split
    · exact h.line_only hphase fewer_line (hok.line hphase)
    · rename_i hconn
      refine h.line_only hphase fewer_line fun hs => ?_
      rcases hok hs with hconn' | ⟨j, hj⟩
      · exact hconn hconn'
      · exact hcareful.2.2.2 hphase j (h.lt_spawned hj nofun) hj

theorem Orderly.dial {initial ok : Bool} (h : Orderly s)
    (hphase : s.threads i = .line (.dialing initial)) : Orderly (s.dial i initial ok) := by
  have hs : ¬ s.Healthy := h.ok_line hphase
  cases ok with
  | true =>
    have hsecond : Safe { s with second := s.second || s.Healthy } :=
      { h.toSafe with second := by simp [h.second, hs] }
    exact h.move_line (by rw [hphase]; rfl) rfl rfl { hsecond with } hs (hphase ▸ fewer_line)
      ⟨id, id, rfl, Nat.le_refl _, rfl⟩ h.halted
  | false => exact h.line_only hphase fewer_line hs

theorem Orderly.refuse {c : Nat} {initial a : Bool} (h : Orderly s)
    (hphase : s.threads i = .line (.registering c initial)) :
    Orderly (setThread i (.line (.failed initial))
      { s with authFailed := a, closed := c :: s.closed }) := by
  have hown := (h.ok_line hphase).1
  have hs : ¬ Client.Healthy { s with closed := c :: s.closed } := by
    rintro ⟨d, hd, hopen, -⟩
    exact hopen (hown d hd ▸ List.mem_cons_self)
  exact h.move_line (by rw [hphase]; rfl) rfl rfl { h.toSafe with } hs (hphase ▸ fewer_line)
    ⟨id, id, rfl, Nat.le_refl _, rfl⟩ fun _ => hs

theorem Orderly.ack {c : Nat} {initial : Bool} {answer : Client.Ack} (h : Orderly s)
    (hphase : s.threads i = .line (.registering c initial)) :
    Orderly (s.ack i c initial answer) := by
  cases answer with
  | accepted =>
    have hok := h.ok_line hphase
    exact h.line_only hphase fewer_line ⟨hok.1, hok.2.update rfl nofun rfl rfl rfl⟩
  | refused => exact h.refuse hphase
  | error => exact h.refuse (a := s.authFailed) hphase

-- ---------------------------------------------------------------------------
-- `Stop` and the loops
-- ---------------------------------------------------------------------------

theorem not_clash (hline : t.isLine = false) (hcloses : t.closes = none) (hdone : t.done = none) :
    ¬ Clash t u := by
  rintro (⟨hl, -⟩ | ⟨pd, hl, -⟩ | ⟨r, hl, -⟩)
  · rw [hline] at hl
    cases hl
  · rw [hcloses] at hl
    cases hl
  · rw [hdone] at hl
    cases hl

theorem Orderly.stop (h : Orderly s) : Orderly s.stop := by
  have hlocking : s.stop.StopLocking := ⟨s.spawned, Function.update_self _ _ _⟩
  refine h.move rfl (Nat.le_succ _) (Nat.lt_succ_self _) { h.toSafe with } trivial
    (fun j _ => (h.ok j).keep ⟨id, id, rfl, Nat.le_refl _, rfl⟩ ?_)
    (fun _ _ => not_clash rfl rfl rfl) h.halted h.known
  exact ⟨id, fun _ => id, fun _ _ => .inr hlocking, fun hs => hs.update rfl nofun rfl rfl rfl⟩

theorem none_of_mem {c d : Option Nat} (hd : ∀ x ∈ d, x ∈ c) (hc : c = none) : d = none :=
  Option.eq_none_iff_forall_not_mem.mpr fun x hx => by
    have hmem := hd x hx
    rw [hc] at hmem
    cases hmem

theorem Orderly.stop_halted {phase : Stop} {r : Bool} {st : ConnectionState}
    {c : Option Nat} {cs : List Nat} (h : Orderly s) (hphase : s.threads i = .stop phase)
    (hr : r = false) (hconn : ∀ d ∈ c, d ∈ s.conn)
    (hs : ¬ Client.Healthy { s with conn := c, closed := cs })
    (hok : t.Ok (setThread i t { s with running := r, state := st, conn := c, closed := cs }))
    (hdone : t.done = none) (hapart : ∀ j, j ≠ i → ¬ Clash t (s.threads j)) :
    Orderly (setThread i t { s with running := r, state := st, conn := c, closed := cs }) := by
  refine h.move_other (h.lt_spawned hphase nofun) rfl rfl { h.toSafe with } hok
    hapart ⟨fun _ => hr, fun hnone => ?_, rfl, Nat.le_refl _, rfl⟩
    ⟨fun hs' => absurd hs' hs, hconn, fun _ => .of_not_healthy hs, fun hu => ?_⟩ fun _ => hs
  · exact none_of_mem hconn hnone
  · exact hu.update rfl (by rw [hdone]; exact nofun) rfl rfl rfl

theorem mem_pingCloses_cons {pd : Nat} {pds : List Nat} (ht : t.closes = some pd)
    (hclash : ¬ Clash t u) (hu : u.closes = some j) (hj : j ∉ pds) : j ∉ pd :: pds := by
  rw [List.mem_cons, not_or]
  refine ⟨?_, hj⟩
  rintro rfl
  exact hclash (.inr (.inl ⟨j, ht, hu⟩))

theorem Orderly.close {pd : Nat} (h : Orderly s) (hcloses : (s.threads i).closes = some pd)
    (hopen : pd ∉ s.pingCloses) (hline : t.isLine = false) (hnot : t.closes = none)
    (hdone : t.done = (s.threads i).done)
    (hok : t.Ok (setThread i t { s with pingCloses := pd :: s.pingCloses })) :
    Orderly (setThread i t { s with pingCloses := pd :: s.pingCloses }) := by
  have hi : i < s.spawned := h.lt_spawned rfl fun habsent => by
    rw [habsent] at hcloses
    cases hcloses
  have hlocking : s.threads i ≠ .stop .locking := fun hphase => by
    rw [hphase] at hcloses
    cases hcloses
  have hsafe : Safe { s with pingCloses := pd :: s.pingCloses } :=
    { h.toSafe with pings := List.nodup_cons.mpr ⟨hopen, h.pings⟩ }
  refine h.move rfl (Nat.le_refl _) hi { hsafe with } hok (fun j hj => ?_)
    (fun j hj hclash => ?_) h.halted h.known
  · have hclash := h.apart i j hj.symm
    cases ht : s.threads j with
    | absent => trivial
    | line phase =>
      refine (h.ok_line ht).keep
        ⟨id, fun _ => id, fun hs => hs.update hlocking rfl rfl id, fun hu => ?_⟩
      exact hu.update rfl (hdone ▸ hu.done i) rfl rfl rfl
    | stop phase =>
      have hok := h.ok_stop ht
      rw [ht] at hclash
      cases phase with
      | closing x c => exact ⟨hok.1, mem_pingCloses_cons hcloses hclash rfl hok.2⟩
      | locking | notRunning | checking | closeConn | waiting => exact hok
    | loop l =>
      have hok := h.ok_loop ht
      rw [ht] at hclash
      refine { hok with closing := fun hclosing => ?_ }
      exact mem_pingCloses_cons hcloses hclash (if_pos hclosing) (hok.closing hclosing)
  · refine h.apart i j hj.symm ?_
    rcases hclash with ⟨hl, -⟩ | ⟨x, hl, -⟩ | ⟨r, hl, hj⟩
    · rw [hline] at hl
      cases hl
    · rw [hnot] at hl
      cases hl
    · exact .inr (.inr ⟨r, hdone ▸ hl, hj⟩)

theorem Orderly.not_closes {pd : Nat} (h : Orderly s) (hcareful : Careful s (.step i))
    (hchecks : (s.threads i).checks = some pd) (hopen : pd ∉ s.pingCloses) :
    (s.threads j).closes ≠ some pd := fun hj => by
  refine hcareful.1 pd hchecks hopen j (h.lt_spawned rfl fun habsent => ?_) hj
  rw [habsent] at hj
  cases hj

theorem Orderly.stepStop {phase : Stop} (h : Orderly s) (hphase : s.threads i = .stop phase)
    (hcareful : Careful s (.step i)) : Orderly (s.stepStop i phase) := by
  have hok := h.ok_stop hphase
  cases phase with
  | locking =>
    unfold Client.stepStop
    dsimp only
    split
    · refine h.stop_halted hphase rfl nofun ?_ rfl rfl fun _ _ => not_clash rfl rfl rfl
      rintro ⟨d, ⟨⟩, -⟩
    · rename_i hrunning
      have hstopped := Bool.eq_false_iff.mpr hrunning
      exact h.stop_halted hphase hstopped (fun _ => id) (h.halted hstopped) hstopped rfl
        fun _ _ => not_clash rfl rfl rfl
  | notRunning | waiting =>
    exact h.stop_halted hphase hok (fun _ => id) (h.halted hok) trivial rfl
      fun _ _ => not_clash rfl rfl rfl
  | checking pd c =>
    unfold Client.stepStop
    dsimp only
    split
    · exact h.stop_halted hphase hok (fun _ => id) (h.halted hok) hok rfl
        fun _ _ => not_clash rfl rfl rfl
    · rename_i hopen
      refine h.stop_halted hphase hok (fun _ => id) (h.halted hok) ⟨hok, hopen⟩ rfl
        fun j _ hclash => ?_
      rcases hclash with ⟨hl, -⟩ | ⟨x, hl, hj⟩ | ⟨r, hl, -⟩
      · cases hl
      · cases hl
        exact h.not_closes hcareful (by rw [hphase]; rfl) hopen hj
      · cases hl
  | closing pd c =>
    exact h.close (by rw [hphase]; rfl) hok.2 rfl rfl (by rw [hphase]; rfl) hok.1
  | closeConn c =>
    exact h.stop_halted hphase hok (fun _ => id) (fun hs => h.halted hok (healthy_of_close hs)) hok
      rfl fun _ _ => not_clash rfl rfl rfl

theorem Orderly.setPhase {l : Loop} {phase : LoopPhase} {c : Option Nat} {cs : List Nat}
    (h : Orderly s) (hphase : s.threads i = .loop l) (hconn : ∀ d ∈ c, d ∈ s.conn)
    (hs : Client.Healthy { s with conn := c, closed := cs } → s.Healthy)
    (harmed : phase.armed → c = none)
    (hclosing : phase.isClosing → l.pingDone ∉ s.pingCloses ∧
      ∀ j, (s.threads j).closes ≠ some l.pingDone) :
    Orderly (Client.setPhase i l phase { s with conn := c, closed := cs }) := by
  have hne : s.threads i ≠ .stop .locking := by rw [hphase]; exact nofun
  refine h.move_other (h.lt_spawned hphase nofun) rfl rfl { h.toSafe with }
    ⟨harmed, fun hc => (hclosing hc).1, (h.ok_loop hphase).done⟩ (fun j hj hclash => ?_)
    ⟨id, fun hnone => ?_, rfl, Nat.le_refl _, rfl⟩
    ⟨hs, hconn, fun hsettled => hsettled.update hne rfl rfl hs, fun hu => ?_⟩
    fun hr hs' => h.halted hr (hs hs')
  · rcases hclash with ⟨hl, -⟩ | ⟨x, hl, hj'⟩ | ⟨r, hl, hj'⟩
    · cases hl
    · rw [Thread.closes] at hl
      split at hl
      · rename_i hc
        cases hl
        exact (hclosing hc).2 j hj'
      · cases hl
    · exact h.apart i j hj.symm (.inr (.inr ⟨r, hphase ▸ hl, hj'⟩))
  · exact none_of_mem hconn hnone
  · have hdone := hu.done i
    rw [hphase] at hdone
    exact hu.update rfl hdone rfl rfl rfl

/-- While no connection is healthy, nobody relies on the state. -/
theorem Orderly.setState {st : ConnectionState} {a b : Bool} (h : Orderly s) (hs : ¬ s.Healthy)
    (ha : a = false) (hb : b = false) :
    Orderly { s with state := st, switched := a, strayed := b } :=
  { h with
    switched := ha
    strayed := hb
    ok := fun j => (h.ok j).keep ⟨id, id, rfl, Nat.le_refl _, rfl⟩
      ⟨id, fun _ => id, fun _ => .of_not_healthy hs, fun hu => { hu with }⟩ }

theorem Orderly.leave {l : Loop} (h : Orderly s) (hphase : s.threads i = .loop l) :
    Orderly (setThread i .absent { s with readerCloses := l.done.toList ++ s.readerCloses }) := by
  have hmem : ∀ r ∈ l.done, (s.threads i).done = some r := fun r hr => by
    rw [hphase]
    exact hr
  have hnot : ∀ r, r ∉ s.readerCloses → (s.threads i).done ≠ some r →
      r ∉ l.done.toList ++ s.readerCloses := by
    intro r hr hdone hmem'
    rcases List.mem_append.mp hmem' with hr' | hr'
    · exact hdone (hmem r (Option.mem_toList.mp hr'))
    · exact hr hr'
  have hdone := (h.ok_loop hphase).done
  have hsafe : Safe { s with readerCloses := l.done.toList ++ s.readerCloses } := by
    refine { h.toSafe with readers := ?_ }
    cases hr : l.done with
    | none => exact h.readers
    | some r => exact List.nodup_cons.mpr ⟨(hdone r hr).2, h.readers⟩
  refine h.move rfl (Nat.le_refl _) (h.lt_spawned hphase nofun) { hsafe with }
    trivial (fun j hj => ?_) (fun _ _ => not_clash rfl rfl rfl) h.halted fun r hr => ?_
  · cases ht : s.threads j with
    | absent => trivial
    | line phase =>
      have hne : s.threads i ≠ .stop .locking := by rw [hphase]; exact nofun
      refine (h.ok_line ht).keep
        ⟨id, fun _ => id, fun hs => hs.update hne rfl rfl id, fun hu => ?_⟩
      have hu' : Client.Unused { s with readerCloses := l.done.toList ++ s.readerCloses } :=
        { hu with closes := hnot _ hu.closes (hu.done i) }
      exact hu'.update rfl nofun rfl rfl rfl
    | stop phase => exact h.ok_stop ht
    | loop m =>
      have hok := h.ok_loop ht
      refine { hok with done := fun r hr => ⟨(hok.done r hr).1, hnot r (hok.done r hr).2 ?_⟩ }
      intro hr'
      exact h.apart i j hj.symm (.inr (.inr ⟨r, hr', ht ▸ hr⟩))
  · rcases List.mem_append.mp hr with hr' | hr'
    · exact (hdone r (Option.mem_toList.mp hr')).1
    · exact h.known r hr'

theorem Orderly.stepLoop {l : Loop} (h : Orderly s) (hphase : s.threads i = .loop l)
    (hcareful : Careful s (.step i)) : Orderly (s.stepLoop i l) := by
  have hok := h.ok_loop hphase
  obtain ⟨c, pd, done, phase⟩ := l
  cases phase with
  | looping => exact h
  | locking =>
    have hown := hcareful.2.2.1 c (by rw [hphase]; rfl)
    have hconn : ∀ d ∈ (if s.conn = some c then none else s.conn), d ∈ s.conn := by
      intro d hd
      split at hd
      · cases hd
      · exact hd
    refine h.setPhase hphase hconn ?_ ?_ nofun
    · rintro ⟨d, hd, hopen⟩
      exact ⟨d, hconn d hd, hopen⟩
    · intro hrunning
      rcases hown hrunning with hnone | hsome
      · rw [hnone]
        rfl
      · exact if_pos hsome
  | checking armed =>
    unfold Client.stepLoop
    dsimp only
    split
    · exact h.setPhase hphase (fun _ => id) id hok.armed nofun
    · rename_i hopen
      refine h.setPhase hphase (fun _ => id) id hok.armed fun _ => ⟨hopen, fun j => ?_⟩
      exact h.not_closes hcareful (by rw [hphase]; rfl) hopen
  | closing armed =>
    exact h.close (by rw [hphase]; rfl) (hok.closing rfl) rfl rfl (by rw [hphase]; rfl)
      ⟨hok.armed, nofun, hok.done⟩
  | closeConn armed =>
    have hclose : Client.Healthy { s with closed := [c] ++ s.closed } → s.Healthy :=
      healthy_of_close
    exact h.setPhase hphase (fun _ => id) hclose hok.armed nofun
  | looking armed =>
    unfold Client.stepLoop
    dsimp only
    split
    · rename_i hset
      refine h.setPhase hphase (fun _ => id) id (fun _ => hok.armed ?_) nofun
      exact (Bool.and_eq_true_iff.mp hset).1
    · exact h.setPhase hphase (fun _ => id) id nofun nofun
  | setting =>
    have hnone : s.conn = none := hok.armed rfl
    have hs : ¬ s.Healthy := by
      rintro ⟨d, hd, -⟩
      rw [hnone] at hd
      cases hd
    have h' : Orderly { s.setReconnecting with
        strayed := s.strayed || (s.conn.any (· ≠ c) && s.state ≠ .reconnecting) } :=
      h.setState hs (safe_setReconnecting h.toSafe hs).switched (by simp [h.strayed, hnone])
    exact h'.setPhase hphase (fun _ => id) id nofun nofun
  | leaving => exact h.leave hphase

theorem Orderly.quit {l : Loop} (h : Orderly s) (hphase : s.threads i = .loop l)
    (hdone : l.done = none) : Orderly (s.setThread i .absent) := by
  have hleave := h.leave hphase
  rwa [hdone] at hleave

theorem Orderly.fail {l : Loop} (h : Orderly s) (hphase : s.threads i = .loop l) :
    Orderly (s.setPhase i l .locking) :=
  h.setPhase hphase (fun _ => id) id nofun nofun

theorem Orderly.lose {c : Nat} (h : Orderly s) : Orderly { s with broken := c :: s.broken } := by
  have hhealthy : Client.Healthy { s with broken := c :: s.broken } → s.Healthy := by
    rintro ⟨d, hd, hopen, hwhole⟩
    exact ⟨d, hd, hopen, fun hmem => hwhole (List.mem_cons_of_mem _ hmem)⟩
  refine { h with
    ok := fun j => (h.ok j).keep ⟨id, id, rfl, Nat.le_refl _, rfl⟩
      ⟨hhealthy, fun _ => id, fun hs hs' => hs (hhealthy hs'), fun hu => { hu with }⟩
    halted := fun hr hs => h.halted hr (hhealthy hs) }

theorem Orderly.start (h : Orderly s) (hcareful : Careful s .start) : Orderly s.start := by
  unfold Client.start
  split
  · exact h
  · rename_i hrunning
    have hs : ¬ s.Healthy := h.halted (Bool.eq_false_iff.mpr hrunning)
    have hleft : ∀ j, (s.threads j).isLine = false ∧ (s.threads j).isStop = false :=
      h.forall_threads (p := fun t => t.isLine = false ∧ t.isStop = false) ⟨rfl, rfl⟩
        (hcareful hrunning)
    refine h.move rfl (Nat.le_succ _) (Nat.lt_succ_self _) { h.toSafe with } hs
      (fun j hj => ?_) (fun j hj hclash => ?_) nofun fun r hr => Nat.lt_succ_of_lt (h.known r hr)
    · cases ht : s.threads j with
      | absent => trivial
      | line =>
        have hnot := (hleft j).1
        rw [ht] at hnot
        cases hnot
      | stop =>
        have hnot := (hleft j).2
        rw [ht] at hnot
        cases hnot
      | loop l =>
        have hok := h.ok_loop ht
        exact { hok with
          done := fun r hr => ⟨Nat.lt_succ_of_lt (hok.done r hr).1, (hok.done r hr).2⟩ }
    · rcases hclash with ⟨-, hj'⟩ | ⟨x, hl, -⟩ | ⟨r, hl, -⟩
      · rw [(hleft j).1] at hj'
        cases hj'
      · cases hl
      · cases hl

theorem Orderly.new : Orderly Client.new where
  pings := List.nodup_nil
  readers := List.nodup_nil
  strayed := rfl
  switched := rfl
  second := rfl
  fresh := fun _ _ => rfl
  ok := fun _ => trivial
  apart := fun _ _ _ => not_clash rfl rfl rfl
  halted := fun _ hs => by
    obtain ⟨d, ⟨⟩, -⟩ := hs
  known := nofun

/-- One step keeps all of it. -/
theorem Orderly.step {e : Event} (h : Orderly s) (hcareful : Careful s e)
    (hstep : Go.step s e = some s') : Orderly s' := by
  obtain ⟨henabled, rfl⟩ := actions_eq_some.mp hstep
  cases e with
  | start => exact h.start hcareful
  | stop => exact h.stop
  | step i =>
    rw [after]
    cases ht : s.threads i with
    | absent => exact h
    | line phase => exact h.stepLine ht hcareful
    | stop phase => exact h.stepStop ht hcareful
    | loop l => exact h.stepLoop ht hcareful
  | dial i ok =>
    rw [after]
    split
    · rename_i ht
      exact h.dial ht
    · exact h
  | ack i answer =>
    rw [after]
    split
    · rename_i ht
      exact h.ack ht
    · exact h
  | fail i =>
    rw [after]
    split
    · rename_i ht
      exact h.fail ht
    · exact h
  | quit i =>
    cases ht : s.threads i with
    | absent | line | stop =>
      rw [Enabled, ht] at henabled
      cases henabled
    | loop l =>
      rw [Enabled, ht] at henabled
      exact h.quit ht henabled.2.1
  | lose c => exact h.lose

end

theorem safe_of_careful (es : List Event) (h : Guarded step Careful Client.new es) :
    Always step Safe Client.new es := by
  refine (h.invariant Orderly.new fun s e s' hs he hstep => ?_).mono fun s hs => hs.toSafe
  exact hs.step he hstep

/-- A line from its attempt to `CONNECTED` and the start of the two loops. -/
def connecting (line : Nat) : List Event :=
  [.step line, .dial line true, .step line, .step line, .ack line .accepted, .step line,
    .step line, .step line]

/-- Connected, disconnected by both loops in turn, connected again and stopped. -/
def reconnected : List Event :=
  .start :: connecting 0 ++ [.lose 0, .fail 1] ++ List.replicate 7 (.step 1) ++ [.fail 2] ++
    List.replicate 6 (.step 2) ++ List.replicate 3 (.step 0) ++ connecting 0 ++ [.stop] ++
    List.replicate 5 (.step 5)

theorem safe_of_careful_reconnected :
    (run step Client.new reconnected).isSome ∧ Always step Safe Client.new reconnected :=
  ⟨by decide +kernel, safe_of_careful reconnected (by decide +kernel)⟩

/-- Both loops of one connection find its `pingDone` open, and both close it. Or the
second loop sets the state once a new connection is there, which opens a third. -/
theorem stale_disconnect_reconnects :
    let lost := .start :: connecting 0 ++ [.lose 0, .fail 1, .fail 2, .step 1, .step 2]
    let twice := lost ++ [.step 1, .step 2, .step 1, .step 2]
    let stale := lost ++ List.replicate 5 (.step 1) ++ List.replicate 3 (.step 0) ++
      connecting 0 ++ List.replicate 4 (.step 2) ++ List.replicate 4 (.step 0) ++ [.dial 0 true]
    (∃ s ∈ run step Client.new twice, ¬ s.pingCloses.Nodup) ∧
      ∃ s ∈ run step Client.new stale, s.strayed ∧ s.switched ∧ s.second := by
  decide +kernel

end Rinfra.Sdk.Go
