import Mathlib.Algebra.BigOperators.Group.Finset.Basic
import Rinfra.Trpc.Session

/-!
# Asks come to an end

What is left to do in a session is counted by `work`, which every step of the
two ends and of the socket takes something off. A session in which none of them
can move, and neither end has given up, has no ask left waiting.
-/

namespace Rinfra.Trpc

open Rinfra.Lib

-- ---------------------------------------------------------------------------
-- While the connection holds
-- ---------------------------------------------------------------------------

namespace Client

/-- Neither loop has met an error. -/
structure Intact (c : Client) : Prop where
  writer : c.writer ≠ .stopped
  reader : c.reader = .reading ∨ ∃ frame, c.reader = .handling frame

/-- What an ask can have got by then. -/
structure Fair (c : Client) (a : Nat) (ask : Ask) : Prop where
  accepted : ask.stage ≠ .unparking
  held : ask.slot ≠ .closed
  sent : ∀ reply, ask.slot = .sent reply → ∃ k, (a, k) ∈ c.answers
  done : ∀ reply, ask.stage = .done reply → ask.slot = .sent reply

def AllFair (c : Client) : Prop :=
  c.Intact → ∀ a ask, c.asks a = some ask → Fair c a ask

section
variable {s s' : Client}

theorem Fair.congr (h : Fair s a ask) (hanswers : s'.answers = s.answers) : Fair s' a ask :=
  ⟨h.accepted, h.held, by simpa only [hanswers] using h.sent, h.done⟩

theorem Fair.setStage (h : Fair s a ask) (hst : stage ≠ .unparking)
    (hdone : ∀ reply, stage = .done reply → ask.slot = .sent reply) :
    Fair s a { ask with stage } :=
  ⟨hst, h.held, h.sent, hdone⟩

theorem fair_setAsk (h : ∀ a ask, s.asks a = some ask → Fair s a ask) (hnew : Fair s a ask)
    (hask' : (s.setAsk a ask).asks b = some ask') : Fair s b ask' := by
  by_cases hb : b = a
  · subst hb
    obtain rfl := Option.some.inj (setAsk_same.symm.trans hask')
    exact hnew
  · exact h b ask' ((setAsk_of_ne hb).symm.trans hask')

theorem insertPending_fresh (hi : Inv s) (hn : Numbered s) (hids : s.issued < 2 ^ 64)
    (hask : s.asks a = some ask) (hst : ask.stage = .parking) : s.pending[ask.id]? = none := by
  cases hp : s.pending[ask.id]? with
  | none => rfl
  | some b =>
    obtain ⟨askb, haskb, hid, -, hstb⟩ := hi.parked ask.id b hp
    obtain rfl := hn.id_inj hids haskb hask hid
    obtain rfl := Option.some.inj (hask.symm.trans haskb)
    exact absurd hst hstb

theorem removePending_of_none {id : Nat} (h : s.pending[id]? = none) : s.removePending id = s := by
  simp [removePending, h]

theorem fair_handleFrame (hi : Inv s) (h : ∀ a ask, s.asks a = some ask → Fair s a ask)
    (hask' : (s.handleFrame frame).asks b = some ask') : Fair (s.handleFrame frame) b ask' := by
  unfold Client.handleFrame at hask' ⊢
  split
  · rename_i reply a hreply hp
    rw [hreply, hp] at hask'
    by_cases hb : b = a
    · subst hb
      obtain ⟨ask, hask, rfl⟩ := Option.map_eq_some_iff.mp (setSlot_same.symm.trans hask')
      have hf := h b ask hask
      refine ⟨hf.accepted, by simp, fun r _ => ⟨_, List.mem_cons_self⟩, fun r hr => ?_⟩
      -- it was still parked, so it had not ended
      have hempty := (hi.parked_ask hp hask).2.1
      have hsent := hf.done r hr
      simp [hempty] at hsent
    · have hf := h b ask' ((setSlot_of_ne hb).symm.trans hask')
      refine ⟨hf.accepted, hf.held, fun r hr => ?_, hf.done⟩
      obtain ⟨k, hk⟩ := hf.sent r hr
      exact ⟨k, List.mem_cons_of_mem _ hk⟩
  · rename_i hnone
    have hf : s.asks b = some ask' := by
      split at hask'
      · exact (hnone _ _ ‹_› ‹_›).elim
      · exact hask'
    exact (h b ask' hf).congr rfl

theorem Intact.of_step (h : s.step e = some s') (hw : s'.Intact) : s.Intact := by
  refine ⟨fun hstop => hw.writer (stopped_of_step h hstop), ?_⟩
  have hreader := hw.reader
  cases moves h with
  | hangUp | drain => simp at hreader
  | frame hr => exact .inl hr
  | handle hr => exact .inr ⟨_, hr⟩
  | park hask hst | unpark hask hst hask' =>
    rw [← (removePending_reading s _).2]
    exact hreader
  | ask | refused | accepted | complete | drop | tellRefused | tell | recv | wrote | writeError =>
    exact hreader

theorem AllFair.step (hf : AllFair s) (hi : Inv s) (hn : Numbered s) (hids : s.issued < 2 ^ 64)
    (h : s.step e = some s') : AllFair s' := by
  intro hw
  have hwas := Intact.of_step h hw
  have hf := hf hwas
  intro b ask' hask'
  cases moves h with
  | ask => exact (fair_setAsk hf ⟨by simp, by simp, by simp, by simp⟩ hask').congr rfl
  | @park a ask hask hst =>
    have hp := insertPending_fresh hi hn hids hask hst
    simp only [Client.insertPending, removePending_of_none hp] at hask'
    refine (fair_setAsk hf ((hf a ask hask).setStage (by simp) (by simp)) hask').congr ?_
    simp [Client.insertPending, removePending_of_none hp, Client.setAsk]
  | refused hask hst hstop => exact absurd hstop hwas.writer
  | @accepted a ask hask hst hwriter hroom =>
    exact (fair_setAsk hf ((hf a ask hask).setStage (by simp) (by simp)) hask').congr rfl
  | @unpark a ask ask'' hask hst _ => exact absurd hst (hf a ask hask).accepted
  | @complete a ask reply hask hst hreply =>
    refine (fair_setAsk hf ((hf a ask hask).setStage (by simp) ?_) hask').congr rfl
    rintro r ⟨⟩
    cases hslot : ask.slot with
    | empty => simp [hslot, Slot.awaited] at hreply
    | sent r => simpa [hslot, Slot.awaited] using hreply
    | closed => exact absurd hslot (hf a ask hask).held
  | @drop a ask hask hst =>
    exact (fair_setAsk hf ((hf a ask hask).setStage (by simp) (by simp)) hask').congr rfl
  | tellRefused | tell | recv | wrote | writeError | frame | hangUp =>
    exact (hf b ask' hask').congr rfl
  | handle hr => exact (fair_handleFrame hi hf hask').congr rfl
  | drain => exact absurd hw.reader (by simp)

end

-- ---------------------------------------------------------------------------
-- What an ask has before it
-- ---------------------------------------------------------------------------

end Client

/-- A frame that is sent still has to be taken up, written, read and answered. -/
def Stage.toll : Stage → Nat
  | .parking => 8
  | .sending => 7
  | .unparking | .waiting => 1
  | .done _ | .dropped => 0

def Reader.toll : Reader → Nat
  | .handling _ => 3
  | .reading => 2
  | .closing => 1
  | .done => 0

namespace Client

def askToll (c : Client) (a : Nat) : Nat :=
  match c.asks a with
  | some ask => ask.stage.toll
  | none => 0

def toll (c : Client) : Nat := ∑ a ∈ Finset.range c.issued, c.askToll a

def load (c : Client) : Nat :=
  c.toll + 5 * c.queue.length + 4 * c.writing.length + c.reader.toll

section
variable {s s' : Client}

theorem askToll_of_stage (h : (s'.asks a).map Ask.stage = (s.asks a).map Ask.stage) :
    s'.askToll a = s.askToll a := by
  unfold askToll
  cases hs : s.asks a <;> cases hs' : s'.asks a <;> simp_all

theorem toll_congr (hissued : s'.issued = s.issued)
    (hasks : ∀ a, (s'.asks a).map Ask.stage = (s.asks a).map Ask.stage) : s'.toll = s.toll := by
  simp only [toll, hissued, askToll_of_stage (hasks _)]

theorem toll_setAsk (s : Client) (ask : Ask) (ha : a < s.issued) :
    (s.setAsk a ask).toll + s.askToll a = s.toll + ask.stage.toll := by
  have ha : a ∈ Finset.range s.issued := Finset.mem_range.mpr ha
  have hrest : ∑ b ∈ (Finset.range s.issued).erase a, (s.setAsk a ask).askToll b =
      ∑ b ∈ (Finset.range s.issued).erase a, s.askToll b := by
    refine Finset.sum_congr rfl fun b hb => ?_
    simp only [askToll, setAsk_of_ne (Finset.ne_of_mem_erase hb)]
  have hnew : (s.setAsk a ask).askToll a = ask.stage.toll := by simp [askToll]
  have hsum : (s.setAsk a ask).toll = _ := (Finset.add_sum_erase _ _ ha).symm
  have hsum' : s.toll = _ := (Finset.add_sum_erase _ _ ha).symm
  omega

theorem setSlot_stages (s : Client) (a b : Nat) (slot : Slot) :
    ((s.setSlot a slot).asks b).map Ask.stage = (s.asks b).map Ask.stage := by
  by_cases hb : b = a
  · subst hb
    rw [setSlot_same]
    cases s.asks b <;> rfl
  · rw [setSlot_of_ne hb]

theorem removePending_stages (s : Client) (id b : Nat) :
    ((s.removePending id).asks b).map Ask.stage = (s.asks b).map Ask.stage := by
  unfold Client.removePending
  split
  · exact setSlot_stages s _ b _
  · rfl

theorem handleFrame_stages (s : Client) (frame : Frame) (b : Nat) :
    ((s.handleFrame frame).asks b).map Ask.stage = (s.asks b).map Ask.stage := by
  unfold Client.handleFrame
  split
  · exact setSlot_stages s _ b _
  · rfl

theorem drainPending_stages (s : Client) (b : Nat) :
    (s.drainPending.asks b).map Ask.stage = (s.asks b).map Ask.stage := by
  cases hask : s.asks b with
  | none => simp [Client.drainPending, hask]
  | some ask =>
    simp only [Client.drainPending, hask, Option.map_some, Option.some.injEq]
    split <;> rfl

end

end Client

/-- The events that the client's own tasks bring about. -/
def Event.inner : Event → Bool
  | .park _ | .send _ | .unpark _ | .complete _ | .recv | .writeError | .handle | .drain => true
  | .ask .. | .drop _ | .tell .. | .wrote | .frame _ | .hangUp => false

namespace Client

section
variable {s s' : Client}

theorem askToll_some (hask : s.asks a = some ask) : s.askToll a = ask.stage.toll := by
  simp [askToll, hask]

/-- An ask that moves on pays the difference. -/
theorem load_setAsk (s : Client) (ask : Ask) (ha : a < s.issued) :
    (s.setAsk a ask).load + s.askToll a = s.load + ask.stage.toll := by
  have htoll := toll_setAsk s ask ha
  have hload : (s.setAsk a ask).load = (s.setAsk a ask).toll + 5 * s.queue.length +
      4 * s.writing.length + s.reader.toll := rfl
  rw [hload, load]
  omega

theorem load_removePending (s : Client) (id : Nat) : (s.removePending id).load = s.load := by
  obtain ⟨-, hwriter, hqueue⟩ := removePending_channel s id
  have htoll := toll_congr (removePending_counters s id).1 (removePending_stages s id)
  simp only [load, writing, htoll, hwriter, hqueue, (removePending_reading s id).2]

theorem load_lt_of_step (hn : Numbered s) (h : s.step e = some s') (he : e.inner = true) :
    s'.load < s.load := by
  cases moves h with
  | @park a ask hask hst =>
    have ha : a < (s.insertPending ask.id a).issued := by
      rw [insertPending, (removePending_counters s ask.id).1]
      exact (hn.asks a ask hask).1
    have h := load_setAsk (s.insertPending ask.id a) { ask with stage := .sending } ha
    have hload : (s.insertPending ask.id a).load = s.load := load_removePending s ask.id
    have htoll : (s.insertPending ask.id a).askToll a = s.askToll a :=
      askToll_of_stage (removePending_stages s ask.id a)
    simp only [hload, htoll, askToll_some hask, hst, Stage.toll] at h
    omega
  | @refused a ask hask hst hw =>
    have h := load_setAsk s { ask with stage := .unparking } (hn.asks a ask hask).1
    simp only [askToll_some hask, hst, Stage.toll] at h
    omega
  | @accepted a ask hask hst hw hroom =>
    have h := load_setAsk s { ask with stage := .waiting } (hn.asks a ask hask).1
    simp only [askToll_some hask, hst, Stage.toll] at h
    have hsent : Client.load { s.setAsk a { ask with stage := .waiting } with
        queue := s.queue ++ [⟨.request, ask.id, ask.service, ask.payload⟩] } =
        (s.setAsk a { ask with stage := .waiting }).load + 5 := by
      simp only [load, toll, List.length_append, List.length_singleton]
      simp only [setAsk, writing, askToll]
      omega
    omega
  | @unpark a ask ask' hask hst hask' =>
    have ha : a < (s.removePending ask.id).issued := by
      rw [(removePending_counters s ask.id).1]
      exact (hn.asks a ask hask).1
    have h := load_setAsk (s.removePending ask.id)
      { ask' with stage := .done (.error connectionClosed) } ha
    have htoll : (s.removePending ask.id).askToll a = s.askToll a :=
      askToll_of_stage (removePending_stages s ask.id a)
    simp only [load_removePending, htoll, askToll_some hask, hst, Stage.toll] at h
    omega
  | @complete a ask reply hask hst hreply =>
    have h := load_setAsk s { ask with stage := .done reply } (hn.asks a ask hask).1
    simp only [askToll_some hask, hst, Stage.toll] at h
    omega
  | @recv next rest hw hq =>
    have htoll : Client.toll { s with queue := rest, writer := .writing next } = s.toll := rfl
    simp only [load, htoll, hq, hw, writing, List.length_cons, List.length_nil]
    omega
  | @writeError next hw =>
    have htoll : Client.toll { s with writer := .stopped, queue := [] } = s.toll := rfl
    simp only [load, htoll, hw, writing, List.length_cons, List.length_nil]
    omega
  | @handle frame hr =>
    obtain ⟨-, hwriter, hqueue⟩ := handleFrame_channel s frame
    have htoll : Client.toll { s.handleFrame frame with reader := .reading } = s.toll :=
      toll_congr (handleFrame_counters s frame).1 (handleFrame_stages s frame)
    rw [load, htoll]
    simp only [load, hr, writing, hwriter, hqueue, Reader.toll]
    omega
  | drain hr =>
    have htoll : Client.toll { s.drainPending with reader := .done } = s.toll :=
      toll_congr rfl (drainPending_stages s)
    simp only [load, htoll, hr, Reader.toll]
    exact Nat.lt_succ_self _
  | ask | drop | tellRefused | tell | wrote | frame | hangUp => simp [Event.inner] at he

end

end Client

-- ---------------------------------------------------------------------------
-- What a session has before it
-- ---------------------------------------------------------------------------

/-- The steps of the two ends and of the socket between them, as against those
of a caller and those in which an end is lost. -/
def Act.inner : Act → Bool
  | .client e => e.inner
  | .wrote | .serve _ | .read => true
  | .close | .lose => false

namespace Session

def work (services : Services) (s : Session) : Nat :=
  s.client.load + 3 * (s.client.written.length - s.taken.length) +
    2 * ((repliesTo services 0 s.taken).length -
      (s.client.received ++ s.client.handling).length) +
    if s.serving then 1 else 0

section
variable {serde : Serde} {services : Services} {s s' : Session}

theorem take_taken (serde : Serde) (services : Services) (s : Session) (frame : Frame)
    (rest : Bytes) (sent : Bool) :
    (s.take serde services frame rest sent).taken = s.taken ++ [frame] := by
  unfold Session.take
  cases frame.kind with
  | request =>
    simp only
    split <;> rfl
  | tell | response | error => rfl

theorem length_repliesTo_concat (services : Services) (frames : List Frame) (frame : Frame) :
    (repliesTo services 0 (frames ++ [frame])).length ≤
      (repliesTo services 0 frames).length + 1 := by
  rw [repliesTo_append, List.length_append, repliesTo]
  split <;> simp [repliesTo]

theorem respond_mem_repliesTo (services : Services) (seq : Nat) (h : frame ∈ frames)
    (hkind : frame.kind = .request) :
    ∃ k, respond services k frame ∈ repliesTo services seq frames := by
  induction frames generalizing seq with
  | nil => cases h
  | cons f fs ih =>
    rw [repliesTo]
    rcases List.mem_cons.mp h with rfl | h
    · rw [if_pos hkind]
      exact ⟨seq + 1, List.mem_cons_self⟩
    · obtain ⟨k, hk⟩ := ih (seq + 1) h
      refine ⟨k, ?_⟩
      split
      · exact List.mem_cons_of_mem _ hk
      · exact hk

theorem Linked.taken_lt {rest : Bytes} (hserde : ∀ frame, serde.Exact frame)
    (h : Linked serde services s) (hread : readFrame serde s.toServer = .ok (some (frame, rest))) :
    s.taken.length < s.client.written.length := by
  obtain ⟨up, hup, hwritten⟩ := h.upstream
  rcases read_of_written hserde hup with ⟨-, hnone⟩ | ⟨f, fs, -, rfl, -, -⟩
  · simp [hnone] at hread
  · simp [hwritten]

theorem Linked.taken_le (h : Linked serde services s) :
    s.taken.length ≤ s.client.written.length := by
  obtain ⟨up, -, hwritten⟩ := h.upstream
  simp [hwritten]

theorem Linked.received_le (h : Linked serde services s) :
    (s.client.received ++ s.client.handling).length ≤ (repliesTo services 0 s.taken).length := by
  obtain ⟨down, -, hpre, -⟩ := h.downstream
  have hle := hpre.length_le
  rw [List.length_append] at hle
  omega

theorem Linked.received_lt {rest : Bytes} (hserde : ∀ frame, serde.Exact frame)
    (h : Linked serde services s) (hread : readFrame serde s.toClient = .ok (some (frame, rest))) :
    (s.client.received ++ s.client.handling).length < (repliesTo services 0 s.taken).length := by
  obtain ⟨down, hdown, hpre, -⟩ := h.downstream
  rcases read_of_written hserde hdown with ⟨-, hnone⟩ | ⟨f, fs, -, rfl, -, -⟩
  · simp [hnone] at hread
  · have hle := hpre.length_le
    rw [List.length_append, List.length_cons] at hle
    omega

theorem work_serve {rest : Bytes} (hserde : ∀ frame, serde.Exact frame)
    (h : Linked serde services s) (hserving : s.serving = true)
    (hread : readFrame serde s.toServer = .ok (some (frame, rest))) (sent : Bool) :
    (s.take serde services frame rest sent).work services < s.work services := by
  have htaken := h.taken_lt hserde hread
  have hreplies := length_repliesTo_concat services s.taken frame
  have hle := h.received_le
  simp only [work, take_client, take_taken, List.length_append, List.length_singleton, hserving,
    if_true] at hle ⊢
  split <;> omega

theorem work_hangUp {c : Client} (hstep : s.client.step .hangUp = some c) :
    Session.work services { s with client := c } < s.work services := by
  cases Client.moves hstep with
  | hangUp hr =>
    have htoll : Client.toll { s.client with reader := .closing } = s.client.toll := rfl
    rw [work, work, Client.load, Client.load, htoll]
    simp only [Client.writing, Client.handling, hr, Reader.toll]
    omega

theorem work_lt_of_step {act : Act} (hserde : ∀ frame, serde.Exact frame)
    (h : Inv serde services s) (hstep : s.step serde services act = some s')
    (hact : act.inner = true) : s'.work services < s.work services := by
  cases moves hstep with
  | client he hc =>
    obtain ⟨hwritten, hread⟩ := Client.local_of_step hc he
    have hload := Client.load_lt_of_step h.numbered hc hact
    simp only [work, hwritten, hread]
    omega
  | wrote hw hbytes hc =>
    cases Client.moves hc with
    | @wrote frame hw =>
      have htoll : Client.toll { s.client with
        writer := .receiving, written := s.client.written ++ [frame] } = s.client.toll := rfl
      have hle := h.linked.taken_le
      rw [work, work, Client.load, Client.load, htoll]
      simp only [Client.writing, Client.handling, hw, List.length_append, List.length_cons,
        List.length_nil]
      omega
  | garbled hserving hread => simp [work, hserving]
  | serve hserving hread => exact work_serve hserde h.linked hserving hread _
  | @read frame rest c hread hc =>
    have hlt := h.linked.received_lt hserde hread
    cases Client.moves hc with
    | frame hr =>
      have htoll : Client.toll { s.client with reader := .handling frame } = s.client.toll := rfl
      simp only [Client.handling, hr, List.append_nil] at hlt
      rw [work, work, Client.load, Client.load, htoll]
      simp only [Client.writing, Client.handling, hr, Reader.toll, List.length_append,
        List.length_cons, List.length_nil]
      omega
  | hangUp hc => exact work_hangUp hc
  | close | lose => simp [Act.inner] at hact

-- ---------------------------------------------------------------------------
-- A session in which nothing can move
-- ---------------------------------------------------------------------------

/-- Neither an end nor the socket has a step to take. -/
def Still (serde : Serde) (services : Services) (s : Session) : Prop :=
  ∀ act : Act, act.inner = true → s.step serde services act = none

theorem Still.client (h : Still serde services s) {e : Event} (he : e.inner = true) :
    s.client.step e = none := by
  have hstep := h (.client e) he
  have hsocket : e.onSocket = false := by cases e <;> simp_all [Event.inner, Event.onSocket]
  simpa [Session.step, hsocket] using hstep

theorem Still.writer (h : Still serde services s) (hw : s.client.writer ≠ .stopped) :
    s.client.writer = .receiving := by
  cases hwriter : s.client.writer with
  | receiving => rfl
  | writing frame =>
    have herror := h.client (e := .writeError) rfl
    simp [Client.step, hwriter] at herror
  | stopped => exact absurd hwriter hw

theorem Still.queue (h : Still serde services s) (hw : s.client.writer ≠ .stopped) :
    s.client.queue = [] := by
  cases hqueue : s.client.queue with
  | nil => rfl
  | cons next rest =>
    have hrecv := h.client (e := .recv) rfl
    simp [Client.step, h.writer hw, hqueue] at hrecv

theorem Still.reader (h : Still serde services s) (hi : s.client.Intact) :
    s.client.reader = .reading := by
  rcases hi.reader with hr | ⟨frame, hr⟩
  · exact hr
  · have hhandle := h.client (e := .handle) rfl
    simp [Client.step, hr] at hhandle

/-- The server has read all that was sent. -/
theorem Still.taken (hserde : ∀ frame, serde.Exact frame) (h : Still serde services s)
    (hl : Linked serde services s) (hserving : s.serving = true)
    (hw : s.client.writer ≠ .stopped) : s.client.traffic = s.taken := by
  obtain ⟨up, hup, hwritten⟩ := hl.upstream
  have hserve := h (.serve true) rfl
  rcases read_of_written hserde hup with ⟨rfl, -⟩ | ⟨f, fs, rest, -, -, hread | ⟨e, hread⟩⟩
  · simp [Client.traffic, Client.writing, h.writer hw, h.queue hw, hwritten]
  · simp [Session.step, hserving, hread] at hserve
  · simp [Session.step, hserving, hread] at hserve

theorem Still.received (hserde : ∀ frame, serde.Exact frame) (h : Still serde services s)
    (hl : Linked serde services s) (hserving : s.serving = true) (hi : s.client.Intact) :
    s.client.received = repliesTo services 0 s.taken := by
  obtain ⟨down, hdown, -, heq⟩ := hl.downstream
  have hr := h.reader hi
  have hstep := h .read rfl
  rcases read_of_written hserde hdown with ⟨rfl, -⟩ | ⟨f, fs, rest, -, -, hread | ⟨e, hread⟩⟩
  · simpa [Client.handling, hr] using heq hserving
  · simp [Session.step, hread, Client.step, hr] at hstep
  · simp [Session.step, hread, Client.step, hr] at hstep

theorem Still.ended (hserde : ∀ frame, serde.Exact frame) (h : Still serde services s)
    (hi : Inv serde services s) (hids : s.client.issued < 2 ^ 64) (hserving : s.serving = true)
    (hc : s.client.Intact) (hask : s.client.asks a = some ask) :
    ask.stage = .dropped ∨ ∃ reply, ask.stage = .done reply := by
  have hw := hc.writer
  cases hst : ask.stage with
  | parking =>
    have hpark := h.client (e := .park a) rfl
    simp [Client.step, hask, hst] at hpark
  | sending =>
    have hsend := h.client (e := .send a) rfl
    simp [Client.step, hask, hst, h.writer hw, h.queue hw, channelCapacity] at hsend
  | unparking =>
    have hunpark := h.client (e := .unpark a) rfl
    simp [Client.step, hask, hst, Client.removePending_asks hask] at hunpark
  | waiting =>
    have hsent := (hi.sends hids).waiting a ask hask hst hw
    rw [h.taken hserde hi.linked hserving hw] at hsent
    obtain ⟨k, hreply⟩ := respond_mem_repliesTo services 0 hsent rfl
    rw [← h.received hserde hi.linked hserving hc] at hreply
    rcases hi.heard hids _ hreply a ask hask (by rw [respond_requestId]; rfl) with hslot | hdropped
    · have hcomplete := h.client (e := .complete a) rfl
      cases hs : ask.slot with
      | empty => exact absurd hs hslot
      | sent reply | closed => simp [Client.step, hask, hst, hs, Slot.awaited] at hcomplete
    · exact .inl (hst.symm.trans hdropped)
  | done reply => exact .inr ⟨reply, rfl⟩
  | dropped => exact .inl rfl

/-- A step of the session is a step of the client or leaves it alone. -/
theorem client_of_step {act : Act} (hstep : s.step serde services act = some s') :
    s'.client = s.client ∨ ∃ e, s.client.step e = some s'.client := by
  cases moves hstep with
  | client _ hc | wrote _ _ hc | read _ hc | hangUp hc | lose hc => exact .inr ⟨_, hc⟩
  | garbled | close => exact .inl rfl
  | serve => exact .inl (take_client ..)

theorem allFair_step {act : Act} (h : Inv serde services s)
    (hf : s.client.issued < 2 ^ 64 → s.client.AllFair)
    (hstep : s.step serde services act = some s') (hids : s'.client.issued < 2 ^ 64) :
    s'.client.AllFair := by
  rcases client_of_step hstep with heq | ⟨e, hc⟩
  · rw [heq] at hids ⊢
    exact hf hids
  · have hle : s.client.issued < 2 ^ 64 := Nat.lt_of_le_of_lt (Client.issued_le_of_step hc) hids
    exact (hf hle).step h.client h.numbered hle hc

theorem allFair_run {acts : List Act} (hserde : ∀ frame, serde.Exact frame)
    (hr : run (step serde services) init acts = some s) (hids : s.client.issued < 2 ^ 64) :
    s.client.AllFair := by
  have hi : Inv serde services s ∧ (s.client.issued < 2 ^ 64 → s.client.AllFair) := by
    refine run_invariant (P := fun s =>
      Inv serde services s ∧ (s.client.issued < 2 ^ 64 → s.client.AllFair)) ⟨inv_init, ?_⟩ ?_ hr
    · simp [init, Client.init, Client.AllFair]
    · exact fun _ _ _ h hs => ⟨h.1.step hserde hs, allFair_step h.1 h.2 hs⟩
  exact hi.2 hids

theorem work_run {acts : List Act} (hserde : ∀ frame, serde.Exact frame)
    (h : Inv serde services s) (hr : run (step serde services) s acts = some s')
    (hinner : ∀ act ∈ acts, act.inner = true) :
    acts.length + s'.work services ≤ s.work services := by
  induction acts generalizing s with
  | nil => cases hr; simp
  | cons act acts ih =>
    obtain ⟨s₁, hs, hr⟩ := run_cons.mp hr
    have hlt := work_lt_of_step hserde h hs (hinner act List.mem_cons_self)
    have hle := ih (h.step hserde hs) hr fun act' hact => hinner act' (List.mem_cons_of_mem _ hact)
    rw [List.length_cons]
    omega

end

end Session

/-- From wherever a client and a server have got to, the two ends and the socket
between them can take only so many steps. If neither end has given up when they
are done, every ask that was not dropped has ended, with what the handler of its
service, called once with its payload, returned. -/
theorem asks_settle (serde : Serde) (hserde : ∀ frame, serde.Exact frame) (services : Services)
    (acts : List Act) (s : Session)
    (hr : run (Session.step serde services) Session.init acts = some s) (more : List Act)
    (t : Session) (hmore : run (Session.step serde services) s more = some t)
    (hinner : ∀ act ∈ more, act.inner = true) (hids : t.client.issued < 2 ^ 64) :
    more.length + t.work services ≤ s.work services ∧
    (t.Still serde services → t.serving = true → t.client.Intact →
      ∀ a ask, t.client.asks a = some ask → ask.stage = .dropped ∨
        ∃ k, t.taken[k]? = some ask.request ∧
          ask.stage = .done (outcome services (k + 1) ask.service ask.payload)) := by
  refine ⟨Session.work_run hserde (Session.inv_run hserde hr) hmore hinner, ?_⟩
  intro hstill hserving hintact a ask hask
  have hrun : run (Session.step serde services) Session.init (acts ++ more) = some t := by
    rw [run_append, hr]
    exact hmore
  have hi := Session.inv_run hserde hrun
  rcases hstill.ended hserde hi hids hserving hintact hask with hdropped | ⟨reply, hdone⟩
  · exact .inl hdropped
  · have hfair := Session.allFair_run hserde hrun hids hintact a ask hask
    have hslot := hfair.done reply hdone
    obtain ⟨k, hk⟩ := hfair.sent reply hslot
    obtain ⟨ask', frame, reply', hask', hrec, hid, hreply, hslot'⟩ := hi.client.answered a k hk
    obtain rfl := Option.some.inj (hask.symm.trans hask')
    obtain rfl := Slot.sent.inj (hslot.symm.trans hslot')
    obtain ⟨k, htaken, hout⟩ := hi.reply_of_ask hids hask (List.mem_of_getElem? hrec) hid
    exact .inr ⟨k, htaken, by rw [hdone, Option.some.inj (hreply.symm.trans hout)]⟩

theorem Session.still_of_idle {serde : Serde} {services : Services} {s : Session}
    (hw : s.client.writer = .receiving) (hq : s.client.queue = []) (hr : s.client.reader = .reading)
    (hup : s.toServer = []) (hdown : s.toClient = []) (hserving : s.serving = true)
    (hended : ∀ a ask, s.client.asks a = some ask → ∃ reply, ask.stage = .done reply) :
    s.Still serde services := by
  intro act hact
  cases hstep : s.step serde services act with
  | none => rfl
  | some s' =>
    exfalso
    have hstage : ∀ {a : Nat} {ask : Ask} {stage : Stage}, s.client.asks a = some ask →
        ask.stage = stage → ∃ reply, stage = .done reply := by
      rintro a ask stage hask rfl
      exact hended a ask hask
    cases Session.moves hstep with
    | client he hc =>
      cases Client.moves hc with
      | park hask hst | refused hask hst | accepted hask hst | unpark hask hst
      | complete hask hst =>
        obtain ⟨reply, hdone⟩ := hstage hask hst
        cases hdone
      | recv hw' hq' => simp [hq] at hq'
      | writeError hw' => simp [hw] at hw'
      | handle hr' | drain hr' => simp [hr] at hr'
      | ask | drop | tellRefused | tell | wrote | frame | hangUp =>
        simp [Act.inner, Event.inner] at hact
    | wrote hw' hbytes hc => simp [hw] at hw'
    | garbled _ hread | serve _ hread => simp [hup, readFrame] at hread
    | read hread hc => simp [hdown, readFrame] at hread
    | hangUp hc => simp [Session.step, hdown, readFrame, hserving] at hstep
    | close | lose => simp [Act.inner] at hact

theorem asks_settle_echo : ∃ s t,
    run (Session.step (fewFrames echoFrames) echoServices) Session.init (echoRun.take 1) = some s ∧
    run (Session.step (fewFrames echoFrames) echoServices) s (echoRun.drop 1) = some t ∧
    8 + t.work echoServices ≤ s.work echoServices ∧
    ∀ a ask, t.client.asks a = some ask → ask.stage = .dropped ∨
      ∃ k, t.taken[k]? = some ask.request ∧
        ask.stage = .done (outcome echoServices (k + 1) ask.service ask.payload) := by
  have hserde : ∀ frame, (fewFrames echoFrames).Exact frame := fewFrames_exact (by decide)
  obtain ⟨s, t, hr, hmore, hw, hq, hreader, hup, hdown, hserving, hissued, hask⟩ : ∃ s t,
      run (Session.step (fewFrames echoFrames) echoServices) Session.init (echoRun.take 1) =
        some s ∧
      run (Session.step (fewFrames echoFrames) echoServices) s (echoRun.drop 1) = some t ∧
      t.client.writer = .receiving ∧ t.client.queue = [] ∧ t.client.reader = .reading ∧
      t.toServer = [] ∧ t.toClient = [] ∧ t.serving = true ∧ t.client.issued = 1 ∧
      t.client.asks 0 = some ⟨1, "echo", [104, 105], .sent (.ok [104, 105]),
        .done (.ok [104, 105])⟩ :=
    ⟨_, _, rfl, rfl, rfl, rfl, rfl, rfl, rfl, rfl, rfl, rfl⟩
  obtain ⟨hwork, hsettled⟩ := asks_settle _ hserde echoServices (echoRun.take 1) s hr
    (echoRun.drop 1) t hmore (by simp [echoRun, Act.inner, Event.inner]) (by rw [hissued]; decide)
  have hinv : Session.Inv (fewFrames echoFrames) echoServices t :=
    run_invariant (Session.inv_run hserde hr) (fun _ _ _ h hs => h.step hserde hs) hmore
  refine ⟨s, t, hr, hmore, hwork, hsettled ?_ hserving ⟨by simp [hw], .inl hreader⟩⟩
  refine Session.still_of_idle hw hq hreader hup hdown hserving fun a ask h => ?_
  obtain rfl : a = 0 := by
    have := (hinv.numbered.asks a ask h).1
    omega
  cases hask.symm.trans h
  exact ⟨_, rfl⟩

end Rinfra.Trpc
