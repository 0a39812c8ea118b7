import Rinfra.Sdk.GoListNodes

/-!
# Whether `readLoop` gets back to reading

A `readLoop` that finds the channel full takes a value out of it and then puts its own
into it, and both wait. In between, a call may have taken the value, or another
`readLoop` may have put one of its own. Then it is a matter of who else is there: the
channel that is empty needs somebody with a value, the one that is full somebody who
takes it out.
-/

namespace Rinfra.Sdk.GoNodes

open Rinfra.Lib

namespace Client

def Reads (s : Client) (c : Nat) : Prop := s.readers c = .reading

def Offers (s : Client) (c : Nat) : Prop := ∃ m, s.readers c = .offering m

def Takes (s : Client) (c : Nat) : Prop := ∃ m, s.readers c = .taking m

def Puts (s : Client) (c : Nat) : Prop := ∃ m, s.readers c = .putting m

/-- Nodes have arrived on a connection that is not lost, and one of these `readLoop`s
reads them. -/
def Unread (s : Client) (reads : Nat → Prop) : Prop :=
  ∃ d, reads d ∧ d ∉ s.lost ∧ ∃ m ∈ s.wire d, m.frame.nodes?.isSome

/-- Somebody has a value for the channel, or comes to have one. -/
def Fills (s : Client) (reads : Nat → Prop) : Prop :=
  (∃ d, s.Puts d ∨ s.Offers d) ∨ s.Unread reads

/-- Somebody takes a value out of the channel: one of these `readLoop`s, a call that
waits or is about to, or a `readLoop` that comes to have a value of its own. -/
def Drains (s : Client) (loops : Nat → Prop) (waiting : List Call) (calling : List (Nat × Nat))
    (reads : Nat → Prop) : Prop :=
  (∃ d, loops d ∧ (s.Takes d ∨ s.Offers d)) ∨ waiting ≠ [] ∨
    (∃ call ∈ calling, call.2 ∉ s.lost) ∨ s.Unread reads

/-- The channel is not empty for all who take, nor full for all who put. -/
structure Clear (s : Client) : Prop where
  empty : s.nodeListCh = none → (∃ c, s.Takes c) → s.Fills s.Reads
  full : s.nodeListCh ≠ none → (∃ c, s.Puts c) →
    s.Drains (fun _ => True) s.waiting s.calling s.Reads

end Client

open Client

/-- The server sends nothing more, and the user calls nothing. -/
def Unaided (_ : Client) : Event → Prop
  | .send .. | .listNodes => False
  | .connect | .lose _ | .write .. | .cancel _ | .receive _ | .serve _ | .read _ | .pass _ => True

/-- The `readLoop` can get back to reading. -/
def Returns (s : Client) (c : Nat) : Prop := ∃ t, Reaches step Unaided s t ∧ t.Reads c

def NoneBlocked (s : Client) : Prop := ∀ c, Returns s c

/-- No call takes the value that a `readLoop` has found and is about to take, and no
`readLoop` puts a value where another has taken one and is about to put its own, unless
somebody is left who helps; and the last of those does not go away while it is waited
for. -/
def Spares (s : Client) : Event → Prop
  | .receive _ => (∃ c, s.Takes c) → s.Fills s.Reads
  | .pass c => s.nodeListCh = none → s.Puts c ∨ s.Offers c → (∃ d ≠ c, s.Puts d) →
    s.Drains (· ≠ c) s.waiting s.calling fun d => s.Reads d ∨ d = c
  | .cancel call => s.nodeListCh ≠ none → (∃ c, s.Puts c) →
    s.Drains (fun _ => True) (s.waiting.filter (· ≠ call)) s.calling s.Reads
  | .write call false => s.nodeListCh ≠ none → (∃ c, s.Puts c) →
    s.Drains (fun _ => True) s.waiting (s.calling.filter (· ≠ call)) s.Reads
  | .lose c =>
    (s.nodeListCh = none → (∃ d, s.Takes d) → s.Fills fun d => s.Reads d ∧ d ≠ c) ∧
      (s.nodeListCh ≠ none → (∃ d, s.Puts d) →
        s.Drains (fun _ => True) s.waiting (s.calling.filter (·.2 ≠ c))
          fun d => s.Reads d ∧ d ≠ c)
  | .write _ true | .connect | .listNodes | .serve _ | .send .. | .read _ => True

section
variable {s s' : Client} {c d : Nat} {m : Message} {r : Reader} {e : Event}
  {reads reads' : Nat → Prop}

-- ---------------------------------------------------------------------------
-- Steps
-- ---------------------------------------------------------------------------

theorem readers_setReader (c : Nat) (r : Reader) (s : Client) (d : Nat) :
    (setReader c r s).readers d = if d = c then r else s.readers d :=
  Function.update_apply ..

theorem step_after (h : Enabled s e) : step s e = some (after s e) := actions_eq_some.mpr ⟨h, rfl⟩

theorem reaches_after (hu : Unaided s e) (h : Enabled s e) : Reaches step Unaided s (after s e) :=
  .single hu (step_after h)

theorem reaches_pass (s : Client) (c : Nat) : Reaches step Unaided s (s.pass c) :=
  reaches_after (e := .pass c) trivial trivial

inductive Passes (s : Client) (c : Nat) : Client → Prop
  | put (m : Message) (hr : s.readers c = .offering m ∨ s.readers c = .putting m)
      (hch : s.nodeListCh = none) :
      Passes s c (setReader c .reading { s with nodeListCh := some m })
  | check (m : Message) (hr : s.readers c = .offering m) (hch : s.nodeListCh ≠ none) :
      Passes s c (s.setReader c (.taking m))
  | take (m : Message) (hr : s.readers c = .taking m) (hch : s.nodeListCh ≠ none) :
      Passes s c (setReader c (.putting m) { s with nodeListCh := none })
  | wait (hr : s.Reads c ∨ s.Takes c ∧ s.nodeListCh = none ∨ s.Puts c ∧ s.nodeListCh ≠ none) :
      Passes s c s

theorem passes (s : Client) (c : Nat) : Passes s c (s.pass c) := by
  unfold Client.pass
  split
  · rename_i m hr hch
    exact .put m (.inl hr) hch
  · rename_i m hr hch
    exact .put m (.inr hr) hch
  · rename_i m x hr hch
    exact .check m hr (by simp [hch])
  · rename_i m x hr hch
    exact .take m hr (by simp [hch])
  · rename_i hr
    exact .wait (.inl hr)
  · rename_i m hr hch
    exact .wait (.inr (.inl ⟨⟨m, hr⟩, hch⟩))
  · rename_i m x hr hch
    exact .wait (.inr (.inr ⟨⟨m, hr⟩, by simp [hch]⟩))

inductive ReadsOn (s : Client) (c : Nat) : Client → Prop
  | nothing (hwire : s.wire c = []) : ReadsOn s c s
  | nodes (m : Message) (rest : List Message) (hwire : s.wire c = m :: rest)
      (hm : m.frame.nodes?.isSome) :
      ReadsOn s c
        (setReader c (.offering m) { s with wire := Function.update s.wire c rest })
  | other (m : Message) (rest : List Message) (hwire : s.wire c = m :: rest)
      (hm : ¬ m.frame.nodes?.isSome) :
      ReadsOn s c { s with wire := Function.update s.wire c rest }

theorem readsOn (hr : s.Reads c) : ReadsOn s c (s.read c) := by
  unfold Client.read
  split
  · rename_i hwire
    exact .nothing hwire
  · rename_i m rest hwire
    split
    · rename_i hm
      exact .nodes m rest hwire hm
    · rename_i hm
      have hsame : Function.update s.readers c .reading = s.readers :=
        Function.update_eq_self_iff.mpr hr.symm
      rw [setReader, hsame]
      exact .other m rest hwire hm

theorem pass_put (hr : s.readers c = .offering m ∨ s.readers c = .putting m)
    (hch : s.nodeListCh = none) :
    s.pass c = setReader c .reading { s with nodeListCh := some m } := by
  rcases hr with hr | hr <;> simp [Client.pass, hr, hch]

theorem pass_check (hr : s.readers c = .offering m) (hch : s.nodeListCh ≠ none) :
    s.pass c = s.setReader c (.taking m) := by
  obtain ⟨x, hx⟩ := Option.ne_none_iff_exists'.mp hch
  simp [Client.pass, hr, hx]

theorem pass_take (hr : s.readers c = .taking m) (hch : s.nodeListCh ≠ none) :
    s.pass c = setReader c (.putting m) { s with nodeListCh := none } := by
  obtain ⟨x, hx⟩ := Option.ne_none_iff_exists'.mp hch
  simp [Client.pass, hr, hx]

theorem ne_of_readers {r' : Reader} (hd : s.readers d = r) (hc : s.readers c = r')
    (h : r ≠ r') : d ≠ c := by
  rintro rfl
  exact h (hd.symm.trans hc)

theorem mem_wire {x : Message} {rest : List Message} (hwire : s.wire c = m :: rest)
    (hx : x ∈ Function.update s.wire c rest d) : x ∈ s.wire d := by
  by_cases hd : d = c
  · rw [hd, Function.update_self] at hx
    rw [hd, hwire]
    exact List.mem_cons_of_mem m hx
  · rwa [Function.update_of_ne hd] at hx

theorem mem_rest {x : Message} {rest : List Message} (hwire : s.wire c = m :: rest)
    (hm : ¬ m.frame.nodes?.isSome) (hx : x ∈ s.wire d) (hnodes : x.frame.nodes?.isSome) :
    x ∈ Function.update s.wire c rest d := by
  by_cases hd : d = c
  · rw [hd, hwire] at hx
    rw [hd, Function.update_self]
    exact (List.mem_cons.mp hx).resolve_left fun hxm => hm (hxm ▸ hnodes)
  · rwa [Function.update_of_ne hd]

theorem mem_wire_append {x : Message} (hx : x ∈ s.wire d) :
    x ∈ Function.update s.wire c (s.wire c ++ [m]) d := by
  by_cases hd : d = c
  · rw [hd] at hx
    rw [hd, Function.update_self]
    exact List.mem_append_left _ hx
  · rwa [Function.update_of_ne hd]

-- ---------------------------------------------------------------------------
-- Getting back
-- ---------------------------------------------------------------------------

theorem Returns.of_reaches (h : Reaches step Unaided s s') (hr : Returns s' c) : Returns s c := by
  obtain ⟨t, ht, hread⟩ := hr
  exact ⟨t, h.trans ht, hread⟩

theorem returns_of_put (hr : s.readers c = .offering m ∨ s.readers c = .putting m)
    (hch : s.nodeListCh = none) : Returns s c := by
  refine ⟨_, reaches_pass s c, ?_⟩
  rw [pass_put hr hch]
  exact Function.update_self ..

theorem returns_of_take (hr : s.readers c = .taking m) (hch : s.nodeListCh ≠ none) :
    Returns s c := by
  refine .of_reaches (reaches_pass s c) ?_
  rw [pass_take hr hch]
  exact returns_of_put (.inr (Function.update_self ..)) rfl

theorem returns_of_offer (hr : s.readers c = .offering m) : Returns s c := by
  by_cases hch : s.nodeListCh = none
  · exact returns_of_put (.inl hr) hch
  · refine .of_reaches (reaches_pass s c) ?_
    rw [pass_check hr hch]
    exact returns_of_take (Function.update_self ..) hch

/-- Only connections that were opened carry anything. -/
def WireOpened (s : Client) : Prop := ∀ d, s.wire d ≠ [] → d < s.opened

/-- Another `readLoop` comes to have a value, and nothing else has changed for the
others. -/
def Helps (s : Client) (c : Nat) : Prop :=
  ∃ t d, d ≠ c ∧ Reaches step Unaided s t ∧ t.Offers d ∧ t.nodeListCh = s.nodeListCh ∧
    t.readers c = s.readers c

/-- Induction on what has arrived. -/
theorem helps_of_wire (hr : s.Reads d) (hlost : d ∉ s.lost) (ho : d < s.opened)
    (hm : ∃ m ∈ s.wire d, m.frame.nodes?.isSome) (hdc : d ≠ c) : Helps s c := by
  generalize hw : s.wire d = wire at hm
  induction wire generalizing s with
  | nil => simp at hm
  | cons x rest ih =>
    have hstep : Reaches step Unaided s (s.read d) :=
      reaches_after (e := .read d) trivial ⟨ho, hr, hlost⟩
    have hread := readsOn hr
    generalize s.read d = s' at hstep hread
    cases hread with
    | nothing hwire =>
      rw [hwire] at hw
      cases hw
    | nodes m rest hwire hnodes =>
      refine ⟨_, d, hdc, hstep, ⟨m, ?_⟩, rfl, ?_⟩
      · exact Function.update_self ..
      · exact Function.update_of_ne hdc.symm ..
    | other m rest' hwire hnodes =>
      obtain ⟨rfl, rfl⟩ := List.cons.inj (hwire.symm.trans hw)
      have hrest : ∃ m ∈ rest', m.frame.nodes?.isSome := by
        obtain ⟨n, hn, hsome⟩ := hm
        rcases List.mem_cons.mp hn with rfl | hn
        · exact absurd hsome hnodes
        · exact ⟨n, hn, hsome⟩
      obtain ⟨t, e, hec, hreach, hoffers, hch, hreaders⟩ :=
        ih (s := { s with wire := Function.update s.wire d rest' }) hr hlost ho
          (Function.update_self ..) hrest
      exact ⟨t, e, hec, hstep.trans hreach, hoffers, hch, hreaders⟩

theorem helps_of_unread (h : s.Unread s.Reads) (hwire : WireOpened s) (hc : ¬ s.Reads c) :
    Helps s c := by
  obtain ⟨d, hd, hlost, m, hm, hsome⟩ := h
  refine helps_of_wire hd hlost (hwire d (List.ne_nil_of_mem hm)) ⟨m, hm, hsome⟩ ?_
  rintro rfl
  exact hc hd

/-- Without the `readLoop`, the channel comes to hold a value. -/
def Filled (s : Client) (c : Nat) : Prop :=
  ∃ t, Reaches step Unaided s t ∧ t.nodeListCh ≠ none ∧ t.readers c = s.readers c

/-- Without the `readLoop`, the channel comes to be empty. -/
def Emptied (s : Client) (c : Nat) : Prop :=
  ∃ t, Reaches step Unaided s t ∧ t.nodeListCh = none ∧ t.readers c = s.readers c

theorem filled_of_put (hr : s.readers d = .offering m ∨ s.readers d = .putting m)
    (hch : s.nodeListCh = none) (hdc : d ≠ c) : Filled s c := by
  refine ⟨_, reaches_pass s d, ?_⟩
  rw [pass_put hr hch]
  exact ⟨Option.some_ne_none m, Function.update_of_ne hdc.symm ..⟩

theorem emptied_of_take (hr : s.readers d = .taking m) (hch : s.nodeListCh ≠ none)
    (hdc : d ≠ c) : Emptied s c := by
  refine ⟨_, reaches_pass s d, ?_⟩
  rw [pass_take hr hch]
  exact ⟨rfl, Function.update_of_ne hdc.symm ..⟩

theorem emptied_of_offer (hr : s.readers d = .offering m) (hch : s.nodeListCh ≠ none)
    (hdc : d ≠ c) : Emptied s c := by
  have hpass := reaches_pass s d
  rw [pass_check hr hch] at hpass
  obtain ⟨t, ht, hnone, hc⟩ :=
    emptied_of_take (s := s.setReader d (.taking m)) (Function.update_self ..) hch hdc
  exact ⟨t, hpass.trans ht, hnone, hc.trans (Function.update_of_ne hdc.symm ..)⟩

theorem emptied_of_waiting {call : Call} (hcall : call ∈ s.waiting) (hch : s.nodeListCh ≠ none) :
    Emptied s c := by
  have hsome : s.nodeListCh.isSome := Option.isSome_iff_ne_none.mpr hch
  obtain ⟨x, hx⟩ := Option.ne_none_iff_exists'.mp hch
  refine ⟨_, reaches_after (e := .receive call) trivial ⟨hcall, hsome⟩, ?_, ?_⟩ <;>
    simp [after, Client.receive, hx]

theorem emptied_of_calling {call : Nat × Nat} (hcall : call ∈ s.calling)
    (hlost : call.2 ∉ s.lost) (hch : s.nodeListCh ≠ none) : Emptied s c := by
  have hwrite : Reaches step Unaided s (s.write call true) :=
    reaches_after (e := .write call true) trivial ⟨hcall, fun _ => hlost⟩
  obtain ⟨t, ht, hnone, hc⟩ :=
    emptied_of_waiting (s := s.write call true) (c := c) List.mem_cons_self hch
  exact ⟨t, hwrite.trans ht, hnone, hc⟩

theorem Client.Fills.filled (h : s.Fills s.Reads) (hwire : WireOpened s)
    (hch : s.nodeListCh = none) (hr : s.readers c = .taking m) : Filled s c := by
  obtain ⟨d, ⟨x, hd⟩ | ⟨x, hd⟩⟩ | h := h
  · exact filled_of_put (.inr hd) hch (ne_of_readers hd hr (by simp))
  · exact filled_of_put (.inl hd) hch (ne_of_readers hd hr (by simp))
  · obtain ⟨t, d, hdc, ht, ⟨x, hd⟩, htch, htc⟩ :=
      helps_of_unread h hwire (c := c) (by simp [Reads, hr])
    obtain ⟨u, hu, huch, huc⟩ := filled_of_put (.inl hd) (htch.trans hch) hdc
    exact ⟨u, ht.trans hu, huch, huc.trans htc⟩

theorem Client.Drains.emptied (h : s.Drains (fun _ => True) s.waiting s.calling s.Reads)
    (hwire : WireOpened s) (hch : s.nodeListCh ≠ none) (hr : s.readers c = .putting m) :
    Emptied s c := by
  obtain ⟨d, -, ⟨x, hd⟩ | ⟨x, hd⟩⟩ | hwaiting | ⟨call, hcall, hlost⟩ | h := h
  · exact emptied_of_take hd hch (ne_of_readers hd hr (by simp))
  · exact emptied_of_offer hd hch (ne_of_readers hd hr (by simp))
  · obtain ⟨call, hcall⟩ := List.exists_mem_of_ne_nil _ hwaiting
    exact emptied_of_waiting hcall hch
  · exact emptied_of_calling hcall hlost hch
  · obtain ⟨t, d, hdc, ht, ⟨x, hd⟩, htch, htc⟩ :=
      helps_of_unread h hwire (c := c) (by simp [Reads, hr])
    obtain ⟨u, hu, huch, huc⟩ := emptied_of_offer hd (by rwa [htch]) hdc
    exact ⟨u, ht.trans hu, huch, huc.trans htc⟩

theorem Client.Clear.noneBlocked (h : s.Clear) (hwire : WireOpened s) : NoneBlocked s := by
  intro c
  cases hr : s.readers c with
  | reading => exact ⟨s, .refl s, hr⟩
  | offering m => exact returns_of_offer hr
  | taking m =>
    by_cases hch : s.nodeListCh = none
    · obtain ⟨t, ht, htch, htc⟩ := (h.empty hch ⟨c, m, hr⟩).filled hwire hch hr
      exact .of_reaches ht (returns_of_take (htc.trans hr) htch)
    · exact returns_of_take hr hch
  | putting m =>
    by_cases hch : s.nodeListCh = none
    · exact returns_of_put (.inr hr) hch
    · obtain ⟨t, ht, htch, htc⟩ := (h.full hch ⟨c, m, hr⟩).emptied hwire hch hr
      exact .of_reaches ht (returns_of_put (.inr (htc.trans hr)) htch)

-- ---------------------------------------------------------------------------
-- Not getting back
-- ---------------------------------------------------------------------------

/-- The `readLoop` waits for what nobody left does. -/
def Stuck (s : Client) (c : Nat) : Prop :=
  s.nodeListCh = none ∧ s.Takes c ∧ ¬ s.Fills s.Reads ∨
    s.nodeListCh ≠ none ∧ s.Puts c ∧
      ¬ s.Drains (fun _ => True) s.waiting s.calling s.Reads

theorem stuck_of_not_clear (h : ¬ s.Clear) : ∃ c, Stuck s c := by
  by_contra hnone
  rw [not_exists] at hnone
  refine h ⟨fun hch ht => ?_, fun hch hp => ?_⟩
  · obtain ⟨c, hc⟩ := ht
    by_contra hfills
    exact hnone c (.inl ⟨hch, hc, hfills⟩)
  · obtain ⟨c, hc⟩ := hp
    by_contra hdrains
    exact hnone c (.inr ⟨hch, hc, hdrains⟩)

theorem Stuck.not_reads (h : Stuck s c) : ¬ s.Reads c := by
  intro hr
  rcases h with ⟨-, ⟨m, hm⟩, -⟩ | ⟨-, ⟨m, hm⟩, -⟩ <;> cases hm.symm.trans hr

theorem Client.Unread.mono (h : s.Unread reads) (hreads : ∀ d, reads d → reads' d)
    (hlost : ∀ d ∈ s'.lost, d ∈ s.lost)
    (hwire : ∀ d, ∀ m ∈ s.wire d, m.frame.nodes?.isSome → m ∈ s'.wire d) : s'.Unread reads' := by
  obtain ⟨d, hd, hnot, m, hm, hnodes⟩ := h
  exact ⟨d, hreads d hd, fun hmem => hnot (hlost d hmem), m, hwire d m hm hnodes, hnodes⟩

theorem Stuck.mono (h : Stuck s c) (hch : s'.nodeListCh = s.nodeListCh)
    (hreaders : s'.readers = s.readers) (hlost : ∀ d ∈ s.lost, d ∈ s'.lost)
    (hwire : ∀ d, ∀ m ∈ s'.wire d, m ∈ s.wire d)
    (hwaiting : s.nodeListCh ≠ none → s'.waiting ≠ [] → s.waiting ≠ [])
    (hcalling : s.nodeListCh ≠ none → ∀ call ∈ s'.calling, call ∈ s.calling) : Stuck s' c := by
  have hunread : s'.Unread s'.Reads → s.Unread s.Reads := fun hu => by
    refine hu.mono (fun d hd => ?_) hlost fun d m hm _ => hwire d m hm
    rwa [Reads, hreaders] at hd
  rcases h with ⟨hnone, htakes, hfills⟩ | ⟨hfull, hputs, hdrains⟩
  · refine .inl ⟨hch.trans hnone, by rwa [Takes, hreaders], fun h => hfills ?_⟩
    refine h.imp (fun hd => ?_) hunread
    simpa only [Puts, Offers, hreaders] using hd
  · refine .inr ⟨by rwa [hch], by rwa [Puts, hreaders], fun h => hdrains ?_⟩
    refine h.imp (fun hd => ?_) (.imp (hwaiting hfull) (.imp (fun hd => ?_) hunread))
    · simpa only [Takes, Offers, hreaders] using hd
    · obtain ⟨call, hcall, hlive⟩ := hd
      exact ⟨call, hcalling hfull call hcall, fun hmem => hlive (hlost _ hmem)⟩

theorem Stuck.read (h : Stuck s c) (hr : s.Reads d) (hlost : d ∉ s.lost) :
    Stuck (s.read d) c := by
  have hunread : ¬ s.Unread s.Reads := by
    rcases h with ⟨-, -, hfills⟩ | ⟨-, -, hdrains⟩
    · exact fun hu => hfills (.inr hu)
    · exact fun hu => hdrains (.inr (.inr (.inr hu)))
  have hread := readsOn hr
  generalize s.read d = s' at hread
  cases hread with
  | nothing => exact h
  | nodes m rest hwire hm =>
    exact absurd ⟨d, hr, hlost, m, by simp [hwire], hm⟩ hunread
  | other m rest hwire hm =>
    exact h.mono rfl rfl (fun _ => id) (fun _ _ => mem_wire hwire) (fun _ => id) fun _ _ => id

theorem Stuck.pass (h : Stuck s c) : Stuck (s.pass d) c := by
  have hpass := passes s d
  generalize s.pass d = s' at hpass
  cases hpass with
  | put m hr hch =>
    rcases h with ⟨-, -, hfills⟩ | ⟨hfull, -⟩
    · exact absurd (.inl ⟨d, hr.symm.imp (⟨m, ·⟩) (⟨m, ·⟩)⟩) hfills
    · exact absurd hch hfull
  | check m hr hch =>
    rcases h with ⟨hnone, -⟩ | ⟨-, -, hdrains⟩
    · exact absurd hnone hch
    · exact absurd (.inl ⟨d, trivial, .inr ⟨m, hr⟩⟩) hdrains
  | take m hr hch =>
    rcases h with ⟨hnone, -⟩ | ⟨-, -, hdrains⟩
    · exact absurd hnone hch
    · exact absurd (.inl ⟨d, trivial, .inl ⟨m, hr⟩⟩) hdrains
  | wait => exact h

theorem Stuck.step (h : Stuck s c) (hu : Unaided s e) (hs : step s e = some s') : Stuck s' c := by
  obtain ⟨hen, rfl⟩ := actions_eq_some.mp hs
  cases e with
  | connect => exact h.mono rfl rfl (fun _ => id) (fun _ _ => id) (fun _ => id) fun _ _ => id
  | serve d => exact h.mono rfl rfl (fun _ => id) (fun _ _ => id) (fun _ => id) fun _ _ => id
  | lose d =>
    exact h.mono rfl rfl (fun _ => List.mem_cons_of_mem d) (fun _ _ => id) (fun _ => id)
      fun _ _ => id
  | write call ok =>
    obtain ⟨hcall, hlost⟩ := hen
    have hcalling : ∀ x ∈ s.calling.filter (· ≠ call), x ∈ s.calling :=
      fun _ hx => (List.mem_filter.mp hx).1
    cases ok with
    | true =>
      refine h.mono rfl rfl (fun _ => id) (fun _ _ => id) (fun hfull _ => ?_) fun _ => hcalling
      rcases h with ⟨hnone, -⟩ | ⟨-, -, hdrains⟩
      · exact absurd hnone hfull
      · exact absurd (.inr (.inr (.inl ⟨call, hcall, hlost rfl⟩))) hdrains
    | false => exact h.mono rfl rfl (fun _ => id) (fun _ _ => id) (fun _ => id) fun _ => hcalling
  | cancel call =>
    exact h.mono rfl rfl (fun _ => id) (fun _ _ => id)
      (fun _ _ => List.ne_nil_of_mem hen) fun _ _ => id
  | receive call =>
    rcases h with ⟨hnone, -⟩ | ⟨-, -, hdrains⟩
    · simp [hnone, Enabled] at hen
    · exact absurd (.inr (.inl (List.ne_nil_of_mem hen.1))) hdrains
  | read d => exact h.read hen.2.1 hen.2.2
  | pass d => exact h.pass
  | send d frame => exact hu.elim
  | listNodes => exact hu.elim

theorem Stuck.not_returns (h : Stuck s c) : ¬ Returns s c := by
  rintro ⟨t, ht, hr⟩
  exact (ht.invariant (I := (Stuck · c)) h fun _ _ _ hi hu hs => hi.step hu hs).not_reads hr

theorem noneBlocked_iff (hwire : WireOpened s) : NoneBlocked s ↔ s.Clear := by
  refine ⟨fun h => ?_, fun h => h.noneBlocked hwire⟩
  by_contra hclear
  obtain ⟨c, hc⟩ := stuck_of_not_clear hclear
  exact hc.not_returns (h c)

-- ---------------------------------------------------------------------------
-- One step
-- ---------------------------------------------------------------------------

theorem Client.Fills.mono (h : s.Fills s.Reads) (hreaders : s'.readers = s.readers)
    (hlost : ∀ d ∈ s'.lost, d ∈ s.lost)
    (hwire : ∀ d, ∀ m ∈ s.wire d, m.frame.nodes?.isSome → m ∈ s'.wire d) :
    s'.Fills s'.Reads := by
  refine h.imp (fun hd => ?_) (.mono · (fun d hd => ?_) hlost hwire)
  · simpa only [Puts, Offers, hreaders] using hd
  · rwa [Reads, hreaders]

theorem Client.Drains.mono (h : s.Drains (fun _ => True) s.waiting s.calling s.Reads)
    (hreaders : s'.readers = s.readers) (hlost : ∀ d ∈ s'.lost, d ∈ s.lost)
    (hwire : ∀ d, ∀ m ∈ s.wire d, m.frame.nodes?.isSome → m ∈ s'.wire d)
    (hwaiting : s'.waiting = s.waiting) (hcalling : ∀ call ∈ s.calling, call ∈ s'.calling) :
    s'.Drains (fun _ => True) s'.waiting s'.calling s'.Reads := by
  refine h.imp (fun hd => ?_) (.imp (fun hw => ?_) (.imp (fun hc => ?_)
    (.mono · (fun d hd => ?_) hlost hwire)))
  · simpa only [Takes, Offers, hreaders] using hd
  · rwa [hwaiting]
  · obtain ⟨call, hcall, hlive⟩ := hc
    exact ⟨call, hcalling call hcall, fun hmem => hlive (hlost _ hmem)⟩
  · rwa [Reads, hreaders]

theorem Client.Clear.mono (h : s.Clear) (hch : s'.nodeListCh = s.nodeListCh)
    (hreaders : s'.readers = s.readers) (hlost : ∀ d ∈ s'.lost, d ∈ s.lost)
    (hwire : ∀ d, ∀ m ∈ s.wire d, m.frame.nodes?.isSome → m ∈ s'.wire d)
    (hwaiting : s'.waiting = s.waiting) (hcalling : ∀ call ∈ s.calling, call ∈ s'.calling) :
    s'.Clear where
  empty := fun hnone ht =>
    .mono (h.empty (hch ▸ hnone) (by simpa only [Takes, hreaders] using ht)) hreaders hlost hwire
  full := fun hfull hp =>
    .mono (h.full (hch ▸ hfull) (by simpa only [Puts, hreaders] using hp)) hreaders hlost hwire
      hwaiting hcalling

theorem Client.Clear.read (h : s.Clear) (hr : s.Reads c) : (s.read c).Clear := by
  have hread := readsOn hr
  generalize s.read c = s' at hread
  cases hread with
  | nothing => exact h
  | nodes m rest hwire hm =>
    have hoffers : Offers (setReader c (.offering m)
        { s with wire := Function.update s.wire c rest }) c := ⟨m, Function.update_self ..⟩
    exact ⟨fun _ _ => .inl ⟨c, .inr hoffers⟩, fun _ _ => .inl ⟨c, trivial, .inr hoffers⟩⟩
  | other m rest hwire hm =>
    exact h.mono rfl rfl (fun _ => id) (fun _ _ => mem_rest hwire hm) rfl fun _ => id

theorem clear_lose : (s.lose c).Clear ↔ Spares s (.lose c) := by
  have hunread : (s.lose c).Unread s.Reads ↔ s.Unread fun d => s.Reads d ∧ d ≠ c := by
    simp [Unread, lose, and_assoc]
  have hfills : (s.lose c).Fills s.Reads ↔ s.Fills fun d => s.Reads d ∧ d ≠ c :=
    or_congr .rfl hunread
  have hdrains : (s.lose c).Drains (fun _ => True) s.waiting s.calling s.Reads ↔
      s.Drains (fun _ => True) s.waiting (s.calling.filter (·.2 ≠ c))
        fun d => s.Reads d ∧ d ≠ c := by
    refine or_congr .rfl (or_congr .rfl (or_congr ?_ hunread))
    simp [lose, and_assoc]
  constructor
  · intro hs
    exact ⟨fun hnone ht => hfills.mp (hs.empty hnone ht), fun hfull hp =>
      hdrains.mp (hs.full hfull hp)⟩
  · rintro ⟨hempty, hfull⟩
    exact ⟨fun hnone ht => hfills.mpr (hempty hnone ht), fun hch hp =>
      hdrains.mpr (hfull hch hp)⟩

theorem puts_setReading {slot : Option Message} :
    (setReader c .reading { s with nodeListCh := slot }).Puts d ↔ d ≠ c ∧ s.Puts d := by
  by_cases hd : d = c <;> simp [Puts, readers_setReader, hd]

theorem drains_put :
    let t := setReader c .reading { s with nodeListCh := some m }
    t.Drains (fun _ => True) s.waiting s.calling t.Reads ↔
      s.Drains (· ≠ c) s.waiting s.calling fun d => s.Reads d ∨ d = c := by
  intro t
  have hreads : ∀ d, t.Reads d ↔ s.Reads d ∨ d = c := fun d => by
    by_cases hd : d = c <;> simp [t, Reads, readers_setReader, hd]
  refine or_congr (exists_congr fun d => ?_) (or_congr .rfl (or_congr .rfl ?_))
  · by_cases hd : d = c <;> simp [t, Takes, Offers, readers_setReader, hd]
  · exact exists_congr fun d => and_congr (hreads d) .rfl

theorem clear_pass (h : s.Clear) : (s.pass c).Clear ↔ Spares s (.pass c) := by
  have hpass := passes s c
  generalize s.pass c = s' at hpass
  cases hpass with
  | put m hr hch =>
    have hhas : s.Puts c ∨ s.Offers c := hr.symm.imp (⟨m, ·⟩) (⟨m, ·⟩)
    constructor
    · intro hs _ _ hp
      obtain ⟨d, hd⟩ := hp
      exact drains_put.mp (hs.full (Option.some_ne_none m) ⟨d, puts_setReading.mpr hd⟩)
    · intro hs
      refine ⟨fun hnone => absurd hnone (Option.some_ne_none m), fun _ hp => drains_put.mpr ?_⟩
      obtain ⟨d, hd⟩ := hp
      exact hs hch hhas ⟨d, puts_setReading.mp hd⟩
  | check m hr hch =>
    refine iff_of_true ⟨fun hnone => absurd hnone hch, fun _ _ => ?_⟩ fun hnone => absurd hnone hch
    exact .inl ⟨c, trivial, .inl ⟨m, Function.update_self ..⟩⟩
  | take m hr hch =>
    refine iff_of_true ⟨fun _ _ => ?_, fun hfull => absurd rfl hfull⟩ fun hnone => absurd hnone hch
    exact .inl ⟨c, .inl ⟨m, Function.update_self ..⟩⟩
  | wait hr =>
    refine iff_of_true h fun hnone hhas => ?_
    rcases hr with hr | ⟨⟨m, hr⟩, -⟩ | ⟨-, hfull⟩
    · rcases hhas with ⟨x, hx⟩ | ⟨x, hx⟩ <;> cases hx.symm.trans hr
    · rcases hhas with ⟨x, hx⟩ | ⟨x, hx⟩ <;> cases hx.symm.trans hr
    · exact absurd hnone hfull

theorem clear_step (h : s.Clear) (hs : step s e = some s') : s'.Clear ↔ Spares s e := by
  obtain ⟨hen, rfl⟩ := actions_eq_some.mp hs
  cases e with
  | connect =>
    exact iff_of_true (h.mono rfl rfl (fun _ => id) (fun _ _ h _ => h) rfl fun _ => id) trivial
  | serve d =>
    exact iff_of_true (h.mono rfl rfl (fun _ => id) (fun _ _ h _ => h) rfl fun _ => id) trivial
  | listNodes =>
    refine iff_of_true ?_ trivial
    rw [after, listNodes]
    split
    · exact h
    · exact h.mono rfl rfl (fun _ => id) (fun _ _ h _ => h) rfl fun _ => List.mem_cons_of_mem _
  | send d frame =>
    refine iff_of_true ?_ trivial
    exact h.mono rfl rfl (fun _ => id) (fun _ _ hx _ => mem_wire_append hx) rfl fun _ => id
  | lose d => exact clear_lose
  | write call ok =>
    cases ok with
    | true =>
      exact iff_of_true ⟨h.empty, fun _ _ => .inr (.inl (by simp [after, Client.write]))⟩ trivial
    | false => exact ⟨fun hs => hs.full, fun hs => ⟨h.empty, hs⟩⟩
  | cancel call => exact ⟨fun hs => hs.full, fun hs => ⟨h.empty, hs⟩⟩
  | receive call =>
    obtain ⟨x, hx⟩ := Option.isSome_iff_exists.mp hen.2
    simp only [after, receive, hx]
    exact ⟨fun hs => hs.empty rfl, fun hs => ⟨fun _ => hs, fun hfull => absurd rfl hfull⟩⟩
  | read d => exact iff_of_true (h.read hen.2.1) trivial
  | pass d => exact clear_pass h

-- ---------------------------------------------------------------------------
-- Runs
-- ---------------------------------------------------------------------------

theorem WireOpened.new : WireOpened Client.new := fun _ h => absurd rfl h

theorem WireOpened.step (h : WireOpened s) (hs : step s e = some s') : WireOpened s' := by
  obtain ⟨hen, rfl⟩ := actions_eq_some.mp hs
  cases e with
  | connect => exact fun d hd => Nat.lt_succ_of_lt (h d hd)
  | lose | serve | cancel => exact h
  | listNodes =>
    rw [after, listNodes]
    split <;> exact h
  | write call ok =>
    cases ok <;> exact h
  | receive call =>
    rw [after, receive]
    split <;> exact h
  | send d frame =>
    intro e he
    obtain ⟨x, hx⟩ := List.exists_mem_of_ne_nil _ he
    by_cases hed : e = d
    · exact hed ▸ hen
    · have hx' : x ∈ Function.update s.wire d _ e := hx
      rw [Function.update_of_ne hed] at hx'
      exact h e (List.ne_nil_of_mem hx')
  | read d =>
    have hread := readsOn hen.2.1
    rw [after]
    generalize s.read d = s' at hread
    cases hread with
    | nothing => exact h
    | nodes m rest hwire | other m rest hwire =>
      intro e he
      obtain ⟨x, hx⟩ := List.exists_mem_of_ne_nil _ he
      exact h e (List.ne_nil_of_mem (mem_wire hwire hx))
  | pass d =>
    have hpass := passes s d
    rw [after]
    generalize s.pass d = s' at hpass
    cases hpass <;> exact h

/-- Every `readLoop` can get back throughout a run exactly when the run takes away
nobody that another waits for. -/
theorem none_blocked_iff (es : List Event) :
    Always step NoneBlocked Client.new es ↔ Guarded step Spares Client.new es := by
  refine always_iff_guarded (I := WireOpened) .new (fun c => ⟨_, .refl _, rfl⟩)
    (fun _ _ _ hi _ hs _ => hi.step hs) fun s e s' hi hp hs => ?_
  rw [noneBlocked_iff (hi.step hs)]
  exact clear_step ((noneBlocked_iff hi).mp hp) hs

theorem stuck_alone (hch : s.nodeListCh = none) (hwire : ∀ d, s.wire d = [])
    (htakes : s.Takes 0) (hreads : ∀ d, s.Reads (d + 1)) : Stuck s 0 := by
  refine .inl ⟨hch, htakes, ?_⟩
  rintro (⟨d, hd⟩ | ⟨d, -, -, m, hm, -⟩)
  · obtain ⟨x, hx⟩ := htakes
    cases d with
    | zero => rcases hd with ⟨m, hm⟩ | ⟨m, hm⟩ <;> cases hm.symm.trans hx
    | succ d => rcases hd with ⟨m, hm⟩ | ⟨m, hm⟩ <;> cases hm.symm.trans (hreads d)
  · simp [hwire] at hm

/-- The channel is full when `readLoop` looks, and the one call takes the value before
`readLoop` does. -/
theorem taken_by_the_call :
    let es := [.connect, .send 0 (.nodeList ["a"]), .read 0, .pass 0, .listNodes,
      .write (0, 0) true, .send 0 (.nodeList ["b"]), .read 0, .pass 0, .receive ⟨0, 0, 0⟩]
    ∃ s, run step Client.new es = some s ∧ s.Takes 0 ∧ ¬ Returns s 0 ∧
      ¬ Always step NoneBlocked Client.new es := by
  intro es
  obtain ⟨s, hs, htakes, hstuck⟩ :
      ∃ s, run step Client.new es = some s ∧ s.Takes 0 ∧ Stuck s 0 := by
    refine ⟨_, rfl, ⟨_, rfl⟩, stuck_alone rfl (fun d => ?_) ⟨_, rfl⟩ fun d => rfl⟩
    cases d <;> rfl
  exact ⟨s, hs, htakes, hstuck.not_returns, fun h => hstuck.not_returns (h.last hs 0)⟩

end

end Rinfra.Sdk.GoNodes
