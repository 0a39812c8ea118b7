import Rinfra.Mq.Delivery

/-!
# Topics in each other's way

A publish that waits for room in a channel has the locks of the whole bus. The
calls that come after it, on whatever topic, wait until its subscriber receives.

`Lane` is what the calls of one topic make of its channels when nobody receives
from them. A call gets through without the subscribers of another topic exactly
when that topic's calls ahead of it all find room.
-/

namespace Rinfra.Mq

open Rinfra.Lib

/-- The channels of a topic, by how many messages each has, and the index. -/
structure Lane where
  loads : List Nat
  next : Nat

namespace Lane

/-- `none` if there is no room. -/
def publish (capacity : Nat) (lane : Lane) : Option Lane :=
  let idx := lane.next % lane.loads.length
  match lane.loads[idx]? with
  | none => some lane
  | some load =>
    if load < capacity then some ⟨lane.loads.set idx (load + 1), (idx + 1) % lane.loads.length⟩
    else none

def serve (capacity : Nat) (topic : String) (lane : Lane) : Job → Option Lane
  | .publish msg => if msg.topic = topic then lane.publish capacity else some lane
  | .subscribe t => if t = topic then some ⟨lane.loads ++ [0], lane.next⟩ else some lane

def serveAll (capacity : Nat) (topic : String) : List (Nat × Job) → Lane → Option Lane
  | [], lane => some lane
  | (_, job) :: jobs, lane => (lane.serve capacity topic job).bind (serveAll capacity topic jobs)

theorem publish_of_load {lane : Lane} (hidx : idx = lane.next % lane.loads.length)
    (hload : lane.loads[idx]? = some load) :
    lane.publish capacity = if load < capacity then
      some ⟨lane.loads.set idx (load + 1), (idx + 1) % lane.loads.length⟩ else none := by
  subst hidx
  simp only [publish, hload]

end Lane

def Job.topic : Job → String
  | .publish msg => msg.topic
  | .subscribe topic => topic

namespace InMemoryBus

/-- The lane of a topic, without the channels that are closed. -/
def lane (bus : InMemoryBus) (topic : String) : Lane :=
  ⟨(bus.openSenders topic).map fun c => (bus.channels c).queue.length, bus.roundRobin topic⟩

def settled (bus : InMemoryBus) : InMemoryBus :=
  match bus.holder with
  | none => bus
  | some s =>
    if (bus.channels s.target).live then bus.sent s
    else { bus.setCall s.call (.published (.error sendFailed)) with holder := none }

def HasRoom (bus : InMemoryBus) (s : Sending) : Prop :=
  (bus.channels s.target).live = true → (bus.channels s.target).queue.length < bus.capacity

/-- No publish of the topic keeps the locks for want of room. -/
def Unblocked (bus : InMemoryBus) (topic : String) : Prop :=
  ∀ s, bus.holder = some s → s.msg.topic = topic → bus.HasRoom s

def ahead (bus : InMemoryBus) (n : Nat) : List (Nat × Job) :=
  match bus.calls n with
  | .waiting => bus.waiting.takeWhile fun w => w.1 ≠ n
  | _ => []

/-- The calls of the topic ahead of `n` all find room if nobody receives. -/
def Clear (bus : InMemoryBus) (topic : String) (n : Nat) : Prop :=
  bus.Unblocked topic ∧
    (Lane.serveAll bus.capacity topic (bus.ahead n) (bus.settled.lane topic)).isSome = true

def Pending (bus : InMemoryBus) (topic : String) (n : Nat) : Prop :=
  (∃ s, bus.holder = some s ∧ s.call = n ∧ s.msg.topic = topic) ∨
    ∃ job, (n, job) ∈ bus.waiting ∧ job.topic = topic

def Returned (bus : InMemoryBus) (n : Nat) : Prop :=
  (∃ result, bus.calls n = .published result) ∨ ∃ topic, bus.calls n = .subscribed topic

/-- The step is none of the topic's subscribers. -/
def Spares (topic : String) (bus : InMemoryBus) (e : Event) : Prop :=
  ∀ c, e = .receive c ∨ e = .drop c → bus.calls c ≠ .subscribed topic

section
variable {bus bus' : InMemoryBus}

-- ---------------------------------------------------------------------------
-- The lane of a topic
-- ---------------------------------------------------------------------------

theorem openSenders_congr (hsenders : bus'.senders topic = bus.senders topic)
    (hchannels : ∀ c ∈ bus.senders topic, bus'.channels c = bus.channels c) :
    bus'.openSenders topic = bus.openSenders topic := by
  rw [openSenders, hsenders]
  exact List.filter_congr fun c hc => by rw [hchannels c hc]

theorem lane_congr (hsenders : bus'.senders topic = bus.senders topic)
    (hchannels : ∀ c ∈ bus.senders topic, bus'.channels c = bus.channels c)
    (hrobin : bus'.roundRobin topic = bus.roundRobin topic) :
    bus'.lane topic = bus.lane topic := by
  rw [lane, openSenders_congr hsenders hchannels, hrobin, lane]
  congr 1
  apply List.map_congr_left
  intro c hc
  rw [hchannels c (List.mem_filter.mp hc).1]

theorem sender_ne (hi : bus.Subscribed) (hc : c ∈ bus.senders topic)
    (hc' : c' ∈ bus.senders topic') (ht : topic ≠ topic') : c ≠ c' := by
  rintro rfl
  have hsub := hi.subscribed topic c hc
  rw [hi.subscribed topic' c hc'] at hsub
  cases hsub
  exact ht rfl

theorem settled_lane (hi : bus.Subscribed) (hh : bus.holder = some s)
    (ht : topic ≠ s.msg.topic) : bus.settled.lane topic = bus.lane topic := by
  have htarget : s.target ∈ bus.senders s.msg.topic := List.mem_of_getElem? (hi.target s hh)
  simp only [settled, hh]
  split
  · apply lane_congr
    · rfl
    · intro c hc
      simp [InMemoryBus.sent, setCall, setChannel, sender_ne hi hc htarget ht]
    · simp [InMemoryBus.sent, ht]
  · rfl

theorem settled_of_free (hfree : bus.holder = none) : bus.settled = bus := by
  simp [settled, hfree]

theorem unblocked_of_free (hfree : bus.holder = none) : bus.Unblocked topic := by
  intro s hs
  rw [hfree] at hs
  cases hs

theorem queue_sent (hb : bus.Bounded) (c : Nat) :
    ((bus.sent s).channels c).queue.length = Function.update
      (fun c => (bus.channels c).queue.length) s.target
      ((bus.channels s.target).queue.length + 1) c := by
  by_cases hc : c = s.target
  · subst hc
    have htaken := hb.taken s.target
    simp [InMemoryBus.sent, setCall, setChannel, Channel.queue]
    omega
  · simp [InMemoryBus.sent, setCall, setChannel, hc]

theorem openSenders_sent : (bus.sent s).openSenders topic = bus.openSenders topic := by
  apply List.filter_congr
  intro c _
  by_cases hc : c = s.target
  · subst hc
    simp [InMemoryBus.sent, setCall, setChannel]
  · simp [InMemoryBus.sent, setCall, setChannel, hc]

theorem settled_lane_same (hi : bus.Inv) (hh : bus.holder = some s)
    (hlive : (bus.channels s.target).live = true)
    (hsenders : bus.senders s.msg.topic = bus.openSenders s.msg.topic) :
    bus.settled.lane s.msg.topic =
      ⟨(bus.lane s.msg.topic).loads.set s.idx ((bus.channels s.target).queue.length + 1),
        (s.idx + 1) % (bus.lane s.msg.topic).loads.length⟩ := by
  have htarget := hi.subscribed.target s hh
  rw [hsenders] at htarget
  obtain ⟨hlt, hidx⟩ := List.getElem?_eq_some_iff.mp htarget
  have hmem : s.target ∈ bus.openSenders s.msg.topic := List.mem_of_getElem? htarget
  have hnodup : (bus.openSenders s.msg.topic).Nodup := (hi.subscribed.nodup s.msg.topic).filter _
  have hidx : (bus.openSenders s.msg.topic).idxOf s.target = s.idx := by
    rw [← hidx, hnodup.idxOf_getElem]
  simp only [settled, hh, if_pos hlive, lane, openSenders_sent, queue_sent hi.bounded]
  rw [hnodup.map_update, if_pos hmem, hidx]
  simp [InMemoryBus.sent, setCall, setChannel, hsenders]

theorem turn_lane (topic : String) (hi : bus.Inv) (hw : bus.waiting = (n, job) :: rest)
    (h : bus.step .turn = some bus') :
    bus'.waiting = rest ∧
      (bus'.Unblocked topic ↔
        ((bus.lane topic).serve bus.capacity topic job).isSome = true) ∧
      ∀ lane, (bus.lane topic).serve bus.capacity topic job = some lane →
        bus'.settled.lane topic = lane := by
  have hi' := hi.step h
  cases step_moves h with
  | @unheard n msg rest hfree hw' hnone =>
    cases hw.symm.trans hw'
    have hfree' : (({ bus with waiting := rest }.retain msg.topic).setCall n
        (.published (.ok ()))).holder = none := hfree
    refine ⟨rfl, ?_⟩
    rw [settled_of_free hfree']
    by_cases ht : msg.topic = topic
    · subst ht
      have hlane : (bus.lane msg.topic).publish bus.capacity = some (bus.lane msg.topic) := by
        simp [Lane.publish, lane, hnone]
      simp only [Lane.serve, if_true, hlane]
      refine ⟨by simp [unblocked_of_free hfree'], ?_⟩
      rintro _ ⟨⟩
      simp only [openSenders] at hnone
      simp [lane, openSenders, setCall, retain, hnone]
    · simp only [Lane.serve, if_neg ht]
      refine ⟨by simp [unblocked_of_free hfree'], ?_⟩
      rintro _ ⟨⟩
      apply lane_congr
      · simp [setCall, retain, Ne.symm ht]
      · exact fun _ _ => rfl
      · rfl
  | @aimed n msg rest idx target hfree hw' hidx htarget =>
    cases hw.symm.trans hw'
    refine ⟨rfl, ?_⟩
    by_cases ht : msg.topic = topic
    · subst ht
      have hlive := (List.mem_filter.mp (List.mem_of_getElem? htarget)).2
      have hload : (bus.lane msg.topic).loads[idx]? = some (bus.channels target).queue.length := by
        simp [lane, htarget]
      have hlen : (bus.lane msg.topic).loads.length = (bus.openSenders msg.topic).length := by
        simp [lane]
      have hnext : idx = (bus.lane msg.topic).next % (bus.lane msg.topic).loads.length := by
        rw [hlen, hidx]
        rfl
      simp only [Lane.serve, if_true, Lane.publish_of_load hnext hload, hlen]
      constructor
      · simp [Unblocked, HasRoom, setCall, retain, hlive]
      · intro l hl
        split at hl
        · rename_i hroom
          cases hl
          rw [settled_lane_same hi' rfl hlive]
          · simp [lane, openSenders, setCall, retain]
          · simp [openSenders, setCall, retain]
        · cases hl
    · simp only [Lane.serve, if_neg ht]
      refine ⟨?_, ?_⟩
      · simp [Unblocked, ht]
      · rintro _ ⟨⟩
        rw [settled_lane hi'.subscribed rfl (Ne.symm ht)]
        apply lane_congr
        · simp [setCall, retain, Ne.symm ht]
        · exact fun _ _ => rfl
        · simp [Ne.symm ht]
  | @added n topic' rest hfree hw' =>
    cases hw.symm.trans hw'
    have hfree' : (({ bus with waiting := rest }.addSender n topic')).holder = none := hfree
    refine ⟨rfl, ?_⟩
    rw [settled_of_free hfree']
    have hwaiting := hi.queued.waiting n _ (hw ▸ List.mem_cons_self)
    by_cases ht : topic' = topic
    · subst ht
      simp only [Lane.serve, if_true]
      obtain ⟨hlive, hempty⟩ := queue_fresh hi hwaiting
      refine ⟨by simp [unblocked_of_free hfree'], ?_⟩
      rintro _ ⟨⟩
      simp [lane, openSenders, addSender, setCall, List.filter_append, hlive, hempty]
    · simp only [Lane.serve, if_neg ht]
      refine ⟨by simp [unblocked_of_free hfree'], ?_⟩
      rintro _ ⟨⟩
      apply lane_congr
      · simp [addSender, setCall, Ne.symm ht]
      · exact fun _ _ => rfl
      · rfl

-- ---------------------------------------------------------------------------
-- A call that is not clear does not return
-- ---------------------------------------------------------------------------

theorem settled_lane_congr (hholder : bus'.holder = bus.holder)
    (hsenders : bus'.senders = bus.senders) (hchannels : bus'.channels = bus.channels)
    (hrobin : bus'.roundRobin = bus.roundRobin) :
    bus'.settled.lane topic = bus.settled.lane topic := by
  simp only [settled, hholder, hchannels]
  split
  · exact lane_congr (by rw [hsenders]) (fun _ _ => by rw [hchannels]) (by rw [hrobin])
  · split
    · apply lane_congr
      · simp [InMemoryBus.sent, setCall, setChannel, hsenders]
      · intro c _
        simp [InMemoryBus.sent, setCall, setChannel, hchannels]
      · simp [InMemoryBus.sent, hsenders, hrobin]
    · exact lane_congr (by simp [setCall, hsenders]) (fun _ _ => by simp [setCall, hchannels])
        (by simp [setCall, hrobin])

/-- What happens in a channel of another topic does not show in the lane. -/
theorem settled_lane_other (hi : bus.Subscribed) (hi' : (bus.setChannel c ch).Subscribed)
    (hc : ∀ c' ∈ bus.senders topic, c' ≠ c) :
    (bus.setChannel c ch).settled.lane topic = bus.settled.lane topic := by
  have hsame : ∀ c' ∈ bus.senders topic, (bus.setChannel c ch).channels c' = bus.channels c' := by
    intro c' hc'
    simp [setChannel, hc c' hc']
  cases hh : bus.holder with
  | none =>
    have hh' : (bus.setChannel c ch).holder = none := hh
    rw [settled_of_free hh, settled_of_free hh']
    exact lane_congr rfl hsame rfl
  | some s =>
    by_cases ht : topic = s.msg.topic
    · subst ht
      have hne : s.target ≠ c := hc _ (List.mem_of_getElem? (hi.target s hh))
      have hh' : (bus.setChannel c ch).holder = some s := hh
      have htarget : (bus.setChannel c ch).channels s.target = bus.channels s.target := by
        simp [setChannel, hne]
      simp only [settled, hh, hh', htarget]
      split
      · apply lane_congr
        · rfl
        · intro c' hc'
          have hsame := hsame c' hc'
          by_cases hct : c' = s.target
          · subst hct
            simp [InMemoryBus.sent, setCall, setChannel, hne]
          · simpa [InMemoryBus.sent, setCall, setChannel, hct] using hsame
        · rfl
      · exact lane_congr rfl hsame rfl
    · rw [settled_lane hi hh ht, settled_lane hi' hh ht]
      exact lane_congr rfl hsame rfl

theorem takeWhile_append_of_mem {l : List (Nat × Job)} (hn : (n, job) ∈ l)
    (rest : List (Nat × Job)) :
    (l ++ rest).takeWhile (fun w => w.1 ≠ n) = l.takeWhile fun w => w.1 ≠ n := by
  induction l with
  | nil => cases hn
  | cons w l ih =>
    by_cases hw : w.1 = n
    · simp [hw]
    · have hn : (n, job) ∈ l := by
        rcases List.mem_cons.mp hn with rfl | hn
        · exact absurd rfl hw
        · exact hn
      simpa [hw] using ih hn

theorem ahead_of_mem (hi : bus.Queued) (hn : (n, job) ∈ bus.waiting) :
    bus.ahead n = bus.waiting.takeWhile fun w => w.1 ≠ n := by
  simp only [ahead, hi.waiting n job hn]

theorem Clear.congr (hclear : bus'.Clear topic n) (hahead : bus'.ahead n = bus.ahead n)
    (hcapacity : bus'.capacity = bus.capacity)
    (hlane : bus'.settled.lane topic = bus.settled.lane topic) (hroom : bus.Unblocked topic) :
    bus.Clear topic n := by
  obtain ⟨-, hserve⟩ := hclear
  rw [hahead, hcapacity, hlane] at hserve
  exact ⟨hroom, hserve⟩

theorem turn_free (h : bus.step .turn = some bus') :
    bus.holder = none ∧ ∃ n job rest, bus.waiting = (n, job) :: rest := by
  cases step_moves h with
  | unheard hfree hw | aimed hfree hw | added hfree hw => exact ⟨hfree, _, _, _, hw⟩

theorem step_capacity (h : bus.step e = some bus') : bus'.capacity = bus.capacity := by
  cases step_moves h <;> rfl

theorem clear_turn (hi : bus.Inv) (hn : (n, job) ∈ bus.waiting)
    (h : bus.step .turn = some bus') :
    bus.Clear topic n ↔ (n, job) ∈ bus'.waiting → bus'.Clear topic n := by
  have hi' := hi.step h
  obtain ⟨hfree, m, job', rest, hw⟩ := turn_free h
  obtain ⟨hrest, hroom, hlane⟩ := turn_lane topic hi hw h
  have hdistinct := hi.queued.distinct
  rw [hw, List.map_cons, List.nodup_cons] at hdistinct
  rw [Clear, ahead_of_mem hi.queued hn, settled_of_free hfree, hw,
    and_iff_right (unblocked_of_free hfree)]
  by_cases hm : m = n
  · subst hm
    have hgone : (m, job) ∉ bus'.waiting := by
      intro hmem
      rw [hrest] at hmem
      exact hdistinct.1 (List.mem_map.mpr ⟨_, hmem, rfl⟩)
    simp [hgone, Lane.serveAll]
  · have hn' : (n, job) ∈ bus'.waiting := by
      rw [hw] at hn
      rw [hrest]
      rcases List.mem_cons.mp hn with heq | hn
      · cases heq
        exact absurd rfl hm
      · exact hn
    rw [imp_iff_right hn', Clear, ahead_of_mem hi'.queued hn', hrest, hroom, step_capacity h]
    rw [List.takeWhile_cons_of_pos (by simpa using hm), Lane.serveAll]
    cases hserve : (bus.lane topic).serve bus.capacity topic job' with
    | none => simp
    | some lane => simp [hlane lane hserve]

theorem clear_settled (hi : bus.Inv) (hn : (n, job) ∈ bus.waiting) (hh : bus.holder = some s)
    (hroom : bus.HasRoom s) (hi' : bus.settled.Inv) :
    bus.Clear topic n ↔ bus.settled.Clear topic n := by
  have hfree : bus.settled.holder = none := by
    simp only [settled, hh]
    split <;> rfl
  have hw : bus.settled.waiting = bus.waiting := by
    simp only [settled, hh]
    split <;> rfl
  have hcapacity : bus.settled.capacity = bus.capacity := by
    simp only [settled, hh]
    split <;> rfl
  have hunblocked : bus.Unblocked topic := by
    intro s' hs' _
    cases hh.symm.trans hs'
    exact hroom
  rw [Clear, Clear, ahead_of_mem hi.queued hn, ahead_of_mem hi'.queued (hw ▸ hn), hw, hcapacity,
    settled_of_free hfree, and_iff_right hunblocked, and_iff_right (unblocked_of_free hfree)]

theorem clear_other (hi : bus.Inv) (hi' : (bus.setChannel c ch).Inv) (hn : (n, job) ∈ bus.waiting)
    (hc : ∀ c' ∈ bus.senders topic, c' ≠ c) (hclear : (bus.setChannel c ch).Clear topic n) :
    bus.Clear topic n := by
  have hahead : (bus.setChannel c ch).ahead n = bus.ahead n := by
    rw [ahead_of_mem hi'.queued hn, ahead_of_mem hi.queued hn]
    rfl
  refine hclear.congr hahead rfl (settled_lane_other hi.subscribed hi'.subscribed hc) ?_
  rintro s hh rfl
  have hroom := hclear.1 s hh rfl
  have hne := hc _ (List.mem_of_getElem? (hi.subscribed.target s hh))
  simpa [HasRoom, setChannel, hne] using hroom

theorem clear_back (hi : bus.Inv) (hn : (n, job) ∈ bus.waiting) (hs : bus.Spares topic e)
    (h : bus.step e = some bus')
    (hclear : (n, job) ∈ bus'.waiting → bus'.Clear topic n) : bus.Clear topic n := by
  have hi' := hi.step h
  -- where the waiting calls are the same, so are those ahead
  have hahead : bus'.waiting = bus.waiting → bus'.ahead n = bus.ahead n := by
    intro hw
    rw [ahead_of_mem hi'.queued (hw ▸ hn), ahead_of_mem hi.queued hn, hw]
  have hmore : ∀ w, bus'.waiting = bus.waiting ++ w → bus'.ahead n = bus.ahead n := by
    intro w hw
    rw [ahead_of_mem hi'.queued (hw ▸ List.mem_append_left _ hn), ahead_of_mem hi.queued hn, hw,
      takeWhile_append_of_mem hn]
  cases step_moves h with
  | publish hidle hjob | subscribe hidle hjob hcap =>
    have hclear := hclear (List.mem_append_left _ hn)
    exact hclear.congr (hmore _ rfl) rfl (settled_lane_congr rfl rfl rfl rfl) hclear.1
  | panicked hidle hjob hcap =>
    exact (hclear hn).congr (hahead rfl) rfl (settled_lane_congr rfl rfl rfl rfl) (hclear hn).1
  | unheard | aimed | added => exact (clear_turn hi hn h).mpr hclear
  | @sent s hh hlive hroom =>
    have hsettled : bus.settled = bus.sent s := by simp [settled, hh, hlive]
    rw [clear_settled hi hn hh (fun _ => hroom) (hsettled ▸ hi'), hsettled]
    exact hclear hn
  | @failed s hh hclosed =>
    have hsettled : bus.settled =
        { bus.setCall s.call (.published (.error sendFailed)) with holder := none } := by
      simp [settled, hh, hclosed]
    have hroom : bus.HasRoom s := by
      intro hlive
      rw [hclosed] at hlive
      cases hlive
    rw [clear_settled hi hn hh hroom (hsettled ▸ hi'), hsettled]
    exact hclear hn
  | received hc | dropped hc =>
    refine clear_other hi hi' hn ?_ (hclear hn)
    rintro c' hc' rfl
    exact hs c' (by simp) (hi.subscribed.subscribed topic c' hc')

/-- A call that is not clear does not return until a subscriber of the topic
takes a step. -/
theorem clear_of_returned (hi : bus.Inv) (hn : (n, job) ∈ bus.waiting)
    (hr : Reaches step (Spares topic) bus bus') (hreturned : bus'.Returned n) :
    bus.Clear topic n := by
  by_contra hblocked
  have hstuck : bus'.Inv ∧ (n, job) ∈ bus'.waiting ∧ ¬ bus'.Clear topic n := by
    apply hr.invariant (I := fun b => b.Inv ∧ (n, job) ∈ b.waiting ∧ ¬ b.Clear topic n)
    · exact ⟨hi, hn, hblocked⟩
    · rintro b e b' ⟨hi, hn, hblocked⟩ hs h
      refine ⟨hi.step h, ?_⟩
      by_contra hout
      apply hblocked
      exact clear_back hi hn hs h fun hn' => by_contra fun hclear => hout ⟨hn', hclear⟩
  obtain ⟨hi', hn', -⟩ := hstuck
  have hwaiting := hi'.queued.waiting n job hn'
  rcases hreturned with ⟨result, h⟩ | ⟨t, h⟩ <;> rw [hwaiting] at h <;> cases h

-- ---------------------------------------------------------------------------
-- A call that is clear can return
-- ---------------------------------------------------------------------------

theorem settle_of_room (hh : bus.holder = some s) (hroom : bus.HasRoom s) :
    bus.step .send = some bus.settled ∧ bus.settled.holder = none ∧
      bus.settled.waiting = bus.waiting ∧ bus.settled.capacity = bus.capacity ∧
      bus.settled.Returned s.call := by
  by_cases hlive : (bus.channels s.target).live = true
  · have hsettled : bus.settled = bus.sent s := by simp [settled, hh, hlive]
    rw [hsettled]
    refine ⟨by simp [step, hh, hlive, hroom hlive], rfl, rfl, rfl, ?_⟩
    exact .inl ⟨.ok (), by simp [InMemoryBus.sent, setCall]⟩
  · have hsettled : bus.settled =
        { bus.setCall s.call (.published (.error sendFailed)) with holder := none } := by
      simp [settled, hh, hlive]
    rw [hsettled]
    refine ⟨by simp [step, hh, hlive], rfl, rfl, rfl, ?_⟩
    exact .inl ⟨.error sendFailed, by simp [setCall]⟩

/-- The publish that has the locks can give them up, if need be once a subscriber
of its own topic has received. -/
theorem settle (hi : bus.Inv) (hroom : bus.Unblocked topic) :
    ∃ bus', Reaches step (Spares topic) bus bus' ∧ bus'.holder = none ∧
      bus'.waiting = bus.waiting ∧ bus'.capacity = bus.capacity ∧
      bus'.lane topic = bus.settled.lane topic ∧
      ∀ s, bus.holder = some s → bus'.Returned s.call := by
  cases hh : bus.holder with
  | none => exact ⟨bus, .refl bus, hh, rfl, rfl, by rw [settled_of_free hh], by simp⟩
  | some s =>
    have hsend : ∀ b, Spares topic b .send := by simp [Spares]
    by_cases hs : bus.HasRoom s
    · obtain ⟨h, hfree, hwaiting, hcapacity, hreturned⟩ := settle_of_room hh hs
      refine ⟨bus.settled, .single (hsend bus) h, hfree, hwaiting, hcapacity, rfl, ?_⟩
      rintro _ ⟨⟩
      exact hreturned
    · obtain ⟨hlive, hfull⟩ := Classical.not_imp.mp hs
      have ht : s.msg.topic ≠ topic := fun ht => hs (hroom s hh ht)
      have hmem := List.mem_of_getElem? (hi.subscribed.target s hh)
      have hsub := hi.subscribed.subscribed _ _ hmem
      have hpos := hi.subscribed.capacity _ _ hsub
      have hq : (bus.channels s.target).queue ≠ [] := by
        rw [← List.length_pos_iff]
        omega
      obtain ⟨ch, hch⟩ : ∃ ch, ch =
          { bus.channels s.target with taken := (bus.channels s.target).taken + 1 } := ⟨_, rfl⟩
      have hreceive : bus.step (.receive s.target) = some (bus.setChannel s.target ch) := by
        simp [step, hsub, hlive, hq, hch]
      have hi' := hi.step hreceive
      have hother : ∀ c ∈ bus.senders topic, c ≠ s.target :=
        fun c hc => sender_ne hi.subscribed hc hmem ht.symm
      have hbounded := hi.bounded.queue s.target
      have hs' : (bus.setChannel s.target ch).HasRoom s := by
        intro _
        simp only [Channel.queue, List.length_drop, setChannel, Function.update_self, hch] at *
        omega
      have hspares : bus.Spares topic (.receive s.target) := by
        rintro c (h | h) hc <;> cases h
        rw [hsub] at hc
        cases hc
        exact ht rfl
      have hh' : (bus.setChannel s.target ch).holder = some s := hh
      obtain ⟨h, hfree, hwaiting, hcapacity, hreturned⟩ := settle_of_room hh' hs'
      refine ⟨_, (Reaches.single hspares hreceive).trans (.single (hsend _) h), hfree, hwaiting,
        hcapacity, settled_lane_other hi.subscribed hi'.subscribed hother, ?_⟩
      rintro _ ⟨⟩
      exact hreturned

theorem turn_enabled (hfree : bus.holder = none) (hw : bus.waiting = (n, job) :: rest) :
    ∃ bus', bus.step .turn = some bus' := by
  cases job with
  | publish msg => exact ⟨_, by simp only [step, hfree, hw]; rfl⟩
  | subscribe topic => exact ⟨_, by simp only [step, hfree, hw]; rfl⟩

/-- After its turn a call has returned or has the locks. -/
theorem turn_result (hw : bus.waiting = (n, job) :: rest) (h : bus.step .turn = some bus') :
    bus'.Returned n ∨ ∃ s, bus'.holder = some s ∧ s.call = n ∧ s.msg.topic = job.topic := by
  cases step_moves h with
  | unheard hfree hw' =>
    cases hw.symm.trans hw'
    exact .inl (.inl ⟨.ok (), by simp [setCall]⟩)
  | aimed hfree hw' =>
    cases hw.symm.trans hw'
    exact .inr ⟨_, rfl, rfl, rfl⟩
  | @added n topic rest hfree hw' =>
    cases hw.symm.trans hw'
    exact .inl (.inr ⟨topic, by simp [addSender, setCall]⟩)

theorem returns_of_clear {bus : InMemoryBus} (hi : bus.Inv) (hn : (n, job) ∈ bus.waiting)
    (ht : topic ≠ job.topic) (hclear : bus.Clear topic n) :
    ∃ bus', Reaches step (Spares topic) bus bus' ∧ bus'.Returned n := by
  obtain ⟨b, hb, hfree, hwaiting, hcapacity, hlane, -⟩ := settle hi hclear.1
  have hib : b.Inv := hb.invariant hi fun _ _ _ hi _ h => hi.step h
  have hnb : (n, job) ∈ b.waiting := hwaiting ▸ hn
  have hclear : b.Clear topic n := by
    apply hclear.congr
    · rw [ahead_of_mem hi.queued hn, ahead_of_mem hib.queued hnb, hwaiting]
    · exact hcapacity.symm
    · rw [settled_of_free hfree, hlane]
    · exact unblocked_of_free hfree
  obtain ⟨m, job', rest, hw⟩ : ∃ m job' rest, b.waiting = (m, job') :: rest := by
    cases hw : b.waiting with
    | nil => simp [hw] at hnb
    | cons w rest => exact ⟨w.1, w.2, rest, rfl⟩
  obtain ⟨b', h⟩ := turn_enabled hfree hw
  have hturn : Reaches step (Spares topic) bus b' := hb.trans (.single (by simp [Spares]) h)
  have hib' := hib.step h
  by_cases hm : m = n
  · subst hm
    have hjob : job' = job := by
      have hmem : (m, job') ∈ b.waiting := hw ▸ List.mem_cons_self
      exact congrArg Prod.snd (List.inj_on_of_nodup_map hib.queued.distinct hmem hnb rfl)
    subst hjob
    rcases turn_result hw h with hreturned | ⟨s, hh, rfl, hs⟩
    · exact ⟨b', hturn, hreturned⟩
    · have hunblocked : b'.Unblocked topic := by
        intro s' hs' ht'
        cases hh.symm.trans hs'
        exact absurd (ht'.symm.trans hs) ht
      obtain ⟨b'', hb'', -, -, -, -, hreturned⟩ := settle hib' hunblocked
      exact ⟨b'', hturn.trans hb'', hreturned s hh⟩
  · have hrest : b'.waiting = rest := (turn_lane topic hib hw h).1
    have hn' : (n, job) ∈ b'.waiting := by
      rw [hw] at hnb
      rw [hrest]
      rcases List.mem_cons.mp hnb with heq | hnb
      · cases heq
        exact absurd rfl hm
      · exact hnb
    have hless : b'.waiting.length < bus.waiting.length := by
      rw [← hwaiting, hw, hrest]
      exact Nat.lt_succ_self _
    obtain ⟨b'', hb'', hreturned⟩ :=
      returns_of_clear hib' hn' ht ((clear_turn hib hnb h).mp hclear hn')
    exact ⟨b'', hturn.trans hb'', hreturned⟩
termination_by bus.waiting.length

end

-- ---------------------------------------------------------------------------
-- Two topics
-- ---------------------------------------------------------------------------

/-- A call on one topic can return without a step of the other's subscribers
exactly when the other's calls ahead of it all find room. -/
theorem returns_iff_clear (capacity : Nat) (es : List Event) (bus : InMemoryBus)
    (hr : run step (new capacity) es = some bus) (A B : String) (hAB : A ≠ B) (n : Nat)
    (hn : bus.Pending B n) :
    (∃ bus', Reaches step (Spares A) bus bus' ∧ bus'.Returned n) ↔ bus.Clear A n := by
  have hi := run_inv (new_inv capacity) hr
  rcases hn with ⟨s, hh, rfl, rfl⟩ | ⟨job, hn, rfl⟩
  · -- the publish has the locks, so nothing of `A` is ahead of it
    have hunblocked : bus.Unblocked A := by
      rintro s' hs' rfl
      cases hh.symm.trans hs'
      exact absurd rfl hAB
    have hclear : bus.Clear A s.call := by
      refine ⟨hunblocked, ?_⟩
      simp [ahead, hi.queued.holder s hh, Lane.serveAll]
    refine iff_of_true ?_ hclear
    obtain ⟨bus', hreaches, -, -, -, -, hreturned⟩ := settle hi hunblocked
    exact ⟨bus', hreaches, hreturned s hh⟩
  · constructor
    · rintro ⟨bus', hreaches, hreturned⟩
      exact clear_of_returned hi hn hreaches hreturned
    · exact returns_of_clear hi hn hAB

/-- The subscriber of "a" has all the messages there is room for, another one
waits to be sent, and a publish and a subscribe on "b" come after it. -/
def fullTopic : List Event :=
  callNow 0 (.subscribe "a") ++ callNow 1 (.subscribe "b") ++ callNow 2 (.publish "a" []) ++
    [.send] ++ callNow 3 (.publish "a" []) ++
    [.call 4 (.publish "b" []) plainDraw, .call 5 (.subscribe "b") plainDraw]

theorem fullTopic_run {capacity : Nat} (hcapacity : capacity = 1 ∨ capacity = 2) :
    ∃ bus s, run step (new capacity) fullTopic = some bus ∧ bus.capacity = capacity ∧
      bus.holder = some s ∧ s.msg.topic = "a" ∧ (bus.channels s.target).live = true ∧
      (bus.channels s.target).queue.length = 1 ∧
      bus.waiting = [(4, .publish ⟨"id", "b", [], ∅, 0⟩), (5, .subscribe "b")] ∧
      bus.calls 4 = .waiting ∧ bus.openSenders "b" = [1] ∧ (bus.channels 1).queue = [] := by
  rcases hcapacity with rfl | rfl
  · exact ⟨_, _, rfl, rfl, rfl, rfl, rfl, rfl, rfl, rfl, by decide +kernel, rfl⟩
  · exact ⟨_, _, rfl, rfl, rfl, rfl, rfl, rfl, rfl, rfl, by decide +kernel, rfl⟩

/-- With room for the second message the publish on "b" gets through. -/
theorem returns_iff_clear_fullTopic :
    ∃ bus, run step (new 2) fullTopic = some bus ∧ bus.Pending "b" 4 ∧
      ((∃ bus', Reaches step (Spares "a") bus bus' ∧ bus'.Returned 4) ↔ bus.Clear "a" 4) ∧
      bus.Clear "a" 4 := by
  obtain ⟨bus, s, hr, hcapacity, hh, -, -, hlen, hw, h4, -⟩ := fullTopic_run (.inr rfl)
  have hn : bus.Pending "b" 4 := .inr ⟨.publish ⟨"id", "b", [], ∅, 0⟩, by simp [hw], rfl⟩
  refine ⟨bus, hr, hn, returns_iff_clear 2 fullTopic bus hr "a" "b" (by decide) 4 hn, ?_, ?_⟩
  · intro s' hs' _ _
    cases hh.symm.trans hs'
    omega
  · simp [ahead, h4, hw, Lane.serveAll]

theorem full_topic_blocks :
    ∃ bus, run step (new 1) fullTopic = some bus ∧ bus.Pending "b" 4 ∧ bus.Pending "b" 5 ∧
      bus.openSenders "b" = [1] ∧ (bus.channels 1).queue.length < bus.capacity ∧
      ∀ bus', Reaches step (Spares "a") bus bus' → ¬ bus'.Returned 4 ∧ ¬ bus'.Returned 5 := by
  obtain ⟨bus, s, hr, hcapacity, hh, ht, hlive, hlen, hw, -, hopen, hempty⟩ :=
    fullTopic_run (.inl rfl)
  have hi := run_inv (new_inv 1) hr
  have h4 : (4, .publish ⟨"id", "b", [], ∅, 0⟩) ∈ bus.waiting := by simp [hw]
  have h5 : (5, .subscribe "b") ∈ bus.waiting := by simp [hw]
  have hblocked : ∀ n, ¬ bus.Clear "a" n := by
    rintro n ⟨hunblocked, -⟩
    have hroom := hunblocked s hh ht hlive
    omega
  refine ⟨bus, hr, .inr ⟨_, h4, rfl⟩, .inr ⟨_, h5, rfl⟩, hopen, ?_, ?_⟩
  · simp [hempty, hcapacity]
  · intro bus' hreaches
    exact ⟨fun h => hblocked 4 (clear_of_returned hi h4 hreaches h),
      fun h => hblocked 5 (clear_of_returned hi h5 hreaches h)⟩

end InMemoryBus

end Rinfra.Mq
