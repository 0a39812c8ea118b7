import Rinfra.Lib.Transition
import Rinfra.Script.Worker

/-!
# Responses reach the calls they are for

While a call holds the worker, either the pipes hold its own exchange and
nothing else, or what is to be read next is no response at all, so that the call
fails and the worker goes with it. A drop keeps it that way unless it leaves
something that the next call could take for its own: bytes of a request the
worker may still answer, or a whole response.
-/

namespace Rinfra.Script

open Rinfra.Lib

/-- An `Ok` is the response to the line the call wrote. -/
def Execution.Paired (p : Parsers) (x : Execution) : Prop :=
  ∀ output, x.result = .ok output → ∃ response,
    x.answered[x.nth]? = some (x.request.line, response) ∧
      p.response (response ++ [newline]) = .ok output

def Stage.rest : Stage → Bytes
  | .writing rest => rest
  | _ => []

def Stage.got : Stage → Bytes
  | .reading line => line
  | _ => []

def Call.Unsent (c : Call) : Prop :=
  c.stage = .spawning ∨ c.stage = .writing (c.request.line ++ [newline])

instance (c : Call) : Decidable c.Unsent := inferInstanceAs (Decidable (_ ∨ _))

/-- Nobody can return what comes next, after what has been read of it. -/
def Barren (p : Parsers) (got : Bytes) (w : ScriptWorker) : Prop :=
  match takeLine newline (got ++ w.stdout) with
  | some (line, _) => ∃ e, p.response (line ++ [newline]) = .error e
  | none => got ++ w.stdout = [] ∧ w.process ≠ .running

/-- A call that holds the lock is dropped only before it has written anything,
or where the worker has exited or has nothing left that could be taken for a
response. -/
def Allowed (p : Parsers) (s : Engine) (e : Event) : Prop :=
  e = .drop → ∀ c w, s.call = some c → s.worker = some w →
    c.Unsent ∨ w.process = .exited ∨ Barren p [] w

structure ScriptWorker.Clean (w : ScriptWorker) : Prop where
  buffered : w.buffered = []
  stdin : w.stdin = []
  stdout : w.stdout = []

/-- The pipes hold one exchange, its request not yet or already answered. -/
inductive Exchange (c : Call) (w : ScriptWorker) : Prop
  | asking (hnth : w.answered.length = c.nth)
    (hline : w.stdin ++ (w.buffered ++ c.stage.rest) = c.request.line ++ [newline])
    (hstdout : w.stdout = []) (hgot : c.stage.got = [])
  | answered (before : List (Bytes × Bytes)) (response : Bytes)
    (hanswered : w.answered = before ++ [(c.request.line, response)])
    (hnth : before.length = c.nth) (hnl : newline ∉ response)
    (hstdin : w.stdin = []) (hbuffered : w.buffered = []) (hrest : c.stage.rest = [])
    (hgot : c.stage.got ++ w.stdout = response ++ [newline])

structure Serves (p : Parsers) (c : Call) (w : ScriptWorker) : Prop where
  got : newline ∉ c.stage.got
  pipes : Exchange c w ∨ Barren p c.stage.got w

/-- The worker as a call may find it. -/
def Settled (p : Parsers) (w : ScriptWorker) : Prop :=
  w.process = .exited ∨ w.Clean ∨ Barren p [] w

structure Inv (p : Parsers) (s : Engine) : Prop where
  idle : s.call = none → ∀ w, s.worker = some w → Settled p w
  spawning : ∀ c, s.call = some c → c.stage = .spawning →
    ∀ w, s.worker = some w → w.process = .exited
  busy : ∀ c w, s.call = some c → s.worker = some w → c.stage ≠ .spawning →
    c.stage ≠ .killing → Serves p c w
  paired : ∀ x ∈ s.returned, x.Paired p

-- ---------------------------------------------------------------------------
-- Lines
-- ---------------------------------------------------------------------------

theorem base64Symbol_ne (n : Nat) : base64Symbol n ≠ newline := by
  unfold base64Symbol newline
  split_ifs <;> simp [← UInt8.toNat_inj] <;> omega

theorem base64Encode_not_mem (bytes : Bytes) : newline ∉ base64Encode bytes := by
  have hsymbol : ∀ n, newline ≠ base64Symbol n := fun n => (base64Symbol_ne n).symm
  have hpad : newline ≠ 61 := by decide
  induction bytes using base64Encode.induct with
  | case1 => exact List.not_mem_nil
  | case2 a => simp [base64Encode, hsymbol, hpad]
  | case3 a b => simp [base64Encode, hsymbol, hpad]
  | case4 a b c rest ih => simp [base64Encode, hsymbol, ih]

theorem Request.line_not_mem (r : Request) : newline ∉ r.line := by
  have hopen : newline ∉ utf8Bytes "\x7b\"i\":\"" := by decide
  have hmid : newline ∉ utf8Bytes "\",\"s\":\"" := by decide
  have hclose : newline ∉ utf8Bytes "\"\x7d" := by decide
  simp [Request.line, base64Encode_not_mem, hopen, hmid, hclose]

section
variable {p : Parsers} {lang : Language} {s s' : Engine} {c : Call} {w w' : ScriptWorker}

-- ---------------------------------------------------------------------------
-- What is left in the pipes
-- ---------------------------------------------------------------------------

theorem Barren.of_unread (h : Barren p got w) (hunread : got' ++ w'.stdout = got ++ w.stdout)
    (hprocess : w.process ≠ .running → w'.process ≠ .running) : Barren p got' w' := by
  unfold Barren at h ⊢
  rw [hunread]
  cases hl : takeLine newline (got ++ w.stdout) with
  | some found =>
    rw [hl] at h
    exact h
  | none =>
    rw [hl] at h
    exact ⟨h.1, hprocess h.2⟩

theorem Barren.more (h : Barren p got w) (hprocess : w.process = .running)
    (hstdout : w'.stdout = w.stdout ++ bytes) : Barren p got w' := by
  unfold Barren at h ⊢
  cases hl : takeLine newline (got ++ w.stdout) with
  | none =>
    rw [hl] at h
    exact absurd hprocess h.2
  | some found =>
    rw [hl] at h
    rw [hstdout, ← List.append_assoc, takeLine_append hl]
    exact h

theorem Barren.error (h : Barren p got w) (hgot : newline ∉ got)
    (hl : takeLine newline w.stdout = some (line, rest)) :
    ∃ e, p.response (got ++ line ++ [newline]) = .error e := by
  unfold Barren at h
  rw [takeLine_append_left hgot hl] at h
  exact h

theorem Barren.got_nil (h : Barren p got w) (hgot : newline ∉ got) (hstdout : w.stdout = []) :
    got = [] := by
  unfold Barren at h
  rw [hstdout, List.append_nil, takeLine_eq_none.mpr hgot] at h
  exact h.1

theorem ScriptWorker.Clean.nextLine (h : w.Clean) : w.nextLine = w.answered.length := by
  simp [ScriptWorker.nextLine, h.stdin, h.buffered]

/-- An exchange is about the bytes still to write or to read, wherever they are. -/
theorem Exchange.move {c' : Call} (h : Exchange c w) (hanswered : w'.answered = w.answered)
    (hrequest : c'.request = c.request) (hnth : c'.nth = c.nth)
    (hout : w'.stdin ++ (w'.buffered ++ c'.stage.rest) =
      w.stdin ++ (w.buffered ++ c.stage.rest))
    (hin : c'.stage.got ++ w'.stdout = c.stage.got ++ w.stdout) : Exchange c' w' := by
  cases h with
  | asking hlen hline hstdout hgot =>
    rw [hgot, hstdout, List.append_nil, List.append_eq_nil_iff] at hin
    exact .asking (by rw [hanswered, hnth, hlen]) (by rw [hout, hrequest, hline]) hin.2 hin.1
  | answered before response hans hlen hnl hstdin hbuffered hrest hgot =>
    rw [hstdin, hbuffered, hrest, List.nil_append, List.nil_append, List.append_eq_nil_iff,
      List.append_eq_nil_iff] at hout
    exact .answered before response (by rw [hanswered, hrequest, hans]) (by rw [hnth, hlen]) hnl
      hout.1 hout.2.1 hout.2.2 (by rw [hin, hgot])

theorem Exchange.answer (h : Exchange c w) (hnl : newline ∉ response)
    (hl : takeLine newline w.stdin = some (line, rest)) :
    Exchange c { w with
      stdin := rest
      stdout := w.stdout ++ response ++ [newline]
      answered := w.answered ++ [(line, response)] } := by
  cases h with
  | asking hlen hline hstdout hgot =>
    obtain ⟨rfl, rfl, hrest⟩ := takeLine_whole c.request.line_not_mem hl hline
    obtain ⟨hbuffered, hrest⟩ := List.append_eq_nil_iff.mp hrest
    exact .answered w.answered response rfl hlen hnl rfl hbuffered hrest (by simp [hgot, hstdout])
  | answered before response' hans hlen hnl' hstdin =>
    rw [hstdin] at hl
    cases hl

/-- A call that has read a line has read its response, and leaves the pipes
empty. -/
theorem Exchange.complete (h : Exchange c w) (hgot : newline ∉ c.stage.got)
    (hl : takeLine newline w.stdout = some (line, rest)) :
    ∃ response, w.answered[c.nth]? = some (c.request.line, response) ∧
      c.stage.got ++ line = response ∧ rest = [] ∧ w.stdin = [] ∧ w.buffered = [] := by
  cases h with
  | asking hlen hline hstdout =>
    rw [hstdout] at hl
    cases hl
  | answered before response hans hlen hnl hstdin hbuffered hrest hread =>
    have hwhole : (c.stage.got ++ w.stdout) ++ [] = response ++ [newline] := by
      rw [List.append_nil, hread]
    obtain ⟨hline, hnil, -⟩ := takeLine_whole hnl (takeLine_append_left hgot hl) hwhole
    exact ⟨response, by simp [hans, ← hlen], hline, hnil, hstdin, hbuffered⟩

theorem Exchange.got_nil (h : Exchange c w) (hgot : newline ∉ c.stage.got)
    (hstdout : w.stdout = []) : c.stage.got = [] := by
  cases h with
  | asking _ _ _ h => exact h
  | answered before response hans hlen hnl hstdin hbuffered hrest hread =>
    rw [hstdout, List.append_nil] at hread
    exact absurd (by simp [hread]) hgot

theorem Exchange.clean (h : Exchange c w)
    (hunsent : c.stage = .writing (c.request.line ++ [newline])) : w.Clean := by
  cases h with
  | asking hlen hline hstdout =>
    rw [hunsent] at hline
    have hnil : w.stdin ++ w.buffered = [] := by
      rw [← List.append_assoc] at hline
      exact List.append_left_eq_self.mp hline
    obtain ⟨hstdin, hbuffered⟩ := List.append_eq_nil_iff.mp hnil
    exact ⟨hbuffered, hstdin, hstdout⟩
  | answered before response hans hlen hnl hstdin hbuffered hrest =>
    rw [hunsent] at hrest
    exact absurd hrest (List.append_ne_nil_of_right_ne_nil _ (List.cons_ne_nil _ _))

-- ---------------------------------------------------------------------------
-- What the operations keep
-- ---------------------------------------------------------------------------

theorem Settled.serves (h : Settled p w) (halive : w.process ≠ .exited) (request : Request) :
    Serves p ⟨request, w.nextLine, .writing (request.line ++ [newline])⟩ w := by
  refine ⟨List.not_mem_nil, ?_⟩
  rcases h with hexited | hclean | hbarren
  · exact absurd hexited halive
  · refine .inl (.asking hclean.nextLine.symm ?_ hclean.stdout rfl)
    simp [hclean.stdin, hclean.buffered, Stage.rest]
  · exact .inr hbarren

theorem spawn_settled : Settled p .spawn := .inr (.inl ⟨rfl, rfl, rfl⟩)

theorem Execution.paired_error (hresult : x.result = .error e) : Execution.Paired p x := by
  intro output h
  rw [hresult] at h
  cases h

theorem paired_concat (hi : ∀ x ∈ s.returned, Execution.Paired p x) (hx : x.Paired p) :
    ∀ y ∈ s.returned ++ [x], Execution.Paired p y := by
  intro y hy
  rcases List.mem_append.mp hy with hold | hnew
  · exact hi y hold
  · rwa [List.mem_singleton.mp hnew]

theorem Inv.refuse (hi : Inv p s) (request : Request) (e : AppError) :
    Inv p (s.refuse request e) where
  idle := hi.idle
  spawning := hi.spawning
  busy := hi.busy
  paired := paired_concat hi.paired (Execution.paired_error rfl)

theorem Inv.send (hi : Inv p s) (request : Request) (hw : Settled p w)
    (halive : w.process ≠ .exited) : Inv p (s.send request w) where
  idle := by rintro ⟨⟩
  spawning := by rintro _ ⟨⟩ ⟨⟩
  busy := by
    rintro _ _ ⟨⟩ ⟨⟩ - -
    exact hw.serves halive request
  paired := hi.paired

theorem Inv.setStage (hi : Inv p s) (hspawning : stage ≠ .spawning)
    (hw : stage ≠ .killing → Serves p { c with stage } w) : Inv p (s.setStage c stage w) where
  idle := by rintro ⟨⟩
  spawning := by
    rintro _ ⟨⟩ h
    exact absurd h hspawning
  busy := by
    rintro _ _ ⟨⟩ ⟨⟩ - hkilling
    exact hw hkilling
  paired := hi.paired

theorem Inv.finish (hi : Inv p s)
    (hx : (⟨c.request, c.nth, w.answered, result⟩ : Execution).Paired p)
    (hw : ∀ output, result = .ok output → Settled p w) : Inv p (s.finish c w result) where
  idle := by
    intro _ w' hw'
    cases result with
    | ok output =>
      cases hw'
      exact hw output rfl
    | error e => cases hw'
  spawning := by rintro _ ⟨⟩
  busy := by rintro _ _ ⟨⟩
  paired := paired_concat hi.paired hx

/-- The worker does not outlive an error. -/
theorem Inv.fail (hi : Inv p s) (e : AppError) : Inv p (s.finish c w (.error e)) :=
  hi.finish (Execution.paired_error rfl) (by rintro _ ⟨⟩)

theorem Inv.move (hi : Inv p s) (h : Serves p c w) (hspawning : stage ≠ .spawning)
    (hanswered : w'.answered = w.answered) (hprocess : w'.process = w.process)
    (hout : w'.stdin ++ (w'.buffered ++ stage.rest) = w.stdin ++ (w.buffered ++ c.stage.rest))
    (hin : stage.got ++ w'.stdout = c.stage.got ++ w.stdout) (hgot : newline ∉ stage.got) :
    Inv p (s.setStage c stage w') :=
  hi.setStage hspawning fun _ => ⟨hgot, h.pipes.imp (·.move hanswered rfl rfl hout hin)
    (·.of_unread hin fun hne => hprocess ▸ hne)⟩

theorem Inv.pipe (hi : Inv p s) (h : Serves p c w) (hspawning : c.stage ≠ .spawning) (n : Nat) :
    Inv p (s.setStage c c.stage
      { w with stdin := w.stdin ++ w.buffered.take n, buffered := w.buffered.drop n }) := by
  refine hi.move h hspawning rfl rfl ?_ rfl h.got
  rw [List.append_assoc, ← List.append_assoc (w.buffered.take n), List.take_append_drop]

theorem Inv.readLine (hi : Inv p s) (h : Serves p c w)
    (hl : takeLine newline w.stdout = some (line, rest)) :
    Inv p (s.finish c { w with stdout := rest }
      (p.response (c.stage.got ++ line ++ [newline]))) := by
  rcases h.pipes with hex | hbarren
  · obtain ⟨response, hnth, hline, hrest, hstdin, hbuffered⟩ := hex.complete h.got hl
    rw [hline]
    exact hi.finish (fun output hok => ⟨response, hnth, hok⟩) fun _ _ =>
      .inr (.inl ⟨hbuffered, hstdin, hrest⟩)
  · obtain ⟨e, he⟩ := hbarren.error h.got hl
    rw [he]
    exact hi.fail e

theorem Inv.advance (hi : Inv p s) (hcall : s.call = some c) (hworker : s.worker = some w)
    (h : s.advance p lang c w e = some s') : Inv p s' := by
  have hserves : c.stage ≠ .spawning → c.stage ≠ .killing → Serves p c w :=
    hi.busy c w hcall hworker
  cases e with
  | write n =>
    simp only [Engine.advance] at h
    split at h
    · rename_i rest hstage
      cases h
      have hc := hserves (by simp [hstage]) (by simp [hstage])
      refine hi.move hc ?_ rfl rfl ?_ ?_ ?_
      · split <;> exact Stage.noConfusion
      · split
        · rename_i hnil
          simp [hstage, Stage.rest, List.take_of_length_le (List.drop_eq_nil_iff.mp hnil)]
        · simp [hstage, Stage.rest]
      · split <;> simp [hstage, Stage.got]
      · split <;> exact List.not_mem_nil
    · cases h
  | pipe n =>
    simp only [Engine.advance] at h
    split at h
    · rename_i hstage
      cases h
      exact hi.pipe (hserves (by simp [hstage]) (by simp [hstage])) (by simp [hstage]) n
    · rename_i hstage
      cases h
      exact hi.pipe (hserves (by simp [hstage]) (by simp [hstage])) (by simp [hstage]) n
    · cases h
  | writeError e | flushError e | readError e =>
    simp only [Engine.advance] at h
    split at h
    · cases h
      exact hi.fail _
    · cases h
  | flushed =>
    simp only [Engine.advance] at h
    split at h
    · rename_i hstage
      cases h
      have hc := hserves (by simp [hstage]) (by simp [hstage])
      refine hi.move hc (by simp) rfl rfl ?_ ?_ List.not_mem_nil
      · simp [hstage, Stage.rest]
      · simp [hstage, Stage.got]
    · cases h
  | read n =>
    simp only [Engine.advance] at h
    split at h
    · rename_i line hstage
      have hc := hserves (by simp [hstage]) (by simp [hstage])
      split at h
      · rename_i hl
        cases h
        refine hi.move hc (by simp) rfl rfl ?_ ?_ ?_
        · simp [hstage, Stage.rest]
        · simp [hstage, Stage.got]
        · have hgot := hc.got
          rw [hstage] at hgot
          simpa [Stage.got] using ⟨hgot, takeLine_eq_none.mp hl⟩
      · rename_i rest after hl
        cases h
        have hdone := hi.readLine hc (takeLine_take hl)
        rwa [hstage] at hdone
    · cases h
  | eof =>
    simp only [Engine.advance] at h
    split at h
    · rename_i line hstage
      split at h
      · rename_i hend
        cases h
        have hc := hserves (by simp [hstage]) (by simp [hstage])
        have hnil : c.stage.got = [] := hc.pipes.elim (·.got_nil hc.got hend.2)
          (·.got_nil hc.got hend.2)
        simp only [hstage, Stage.got] at hnil
        rw [if_pos hnil]
        exact hi.fail _
      · cases h
    · cases h
  | timeout =>
    simp only [Engine.advance] at h
    split at h
    · cases h
      exact hi.setStage Stage.noConfusion fun hne => absurd rfl hne
    · cases h
  | killed =>
    simp only [Engine.advance] at h
    split at h
    · cases h
      exact hi.fail _
    · cases h
  | _ => cases h

-- ---------------------------------------------------------------------------
-- Steps of the worker and of the lock
-- ---------------------------------------------------------------------------

theorem Inv.answer (hi : Inv p s) (hworker : s.worker = some w) (hnl : newline ∉ response)
    (hrunning : w.process = .running) (hl : takeLine newline w.stdin = some (line, rest)) :
    Inv p { s with worker := some { w with
      stdin := rest
      stdout := w.stdout ++ response ++ [newline]
      answered := w.answered ++ [(line, response)] } } where
  idle := by
    rintro hcall _ ⟨⟩
    rcases hi.idle hcall w hworker with hexited | hclean | hbarren
    · simp [hrunning] at hexited
    · rw [hclean.stdin] at hl
      cases hl
    · exact .inr (.inr (hbarren.more hrunning (List.append_assoc ..)))
  spawning := by
    intro c hcall hstage
    have := hi.spawning c hcall hstage w hworker
    simp [hrunning] at this
  busy := by
    rintro c _ hcall ⟨⟩ hspawning hkilling
    obtain ⟨hgot, hpipes⟩ := hi.busy c w hcall hworker hspawning hkilling
    exact ⟨hgot, hpipes.imp (·.answer hnl hl) (·.more hrunning (List.append_assoc ..))⟩
  paired := hi.paired

theorem Inv.exit (hi : Inv p s) (hworker : s.worker = some w) :
    Inv p { s with worker := some { w with process := .exited } } where
  idle := by
    rintro _ _ ⟨⟩
    exact .inl rfl
  spawning := by
    rintro _ _ _ _ ⟨⟩
    rfl
  busy := by
    rintro c _ hcall ⟨⟩ hspawning hkilling
    obtain ⟨hgot, hpipes⟩ := hi.busy c w hcall hworker hspawning hkilling
    exact ⟨hgot, hpipes.imp (·.move rfl rfl rfl rfl rfl)
      (·.of_unread rfl fun _ => Process.noConfusion)⟩
  paired := hi.paired

/-- A call that goes leaves a worker as the next one may find it. -/
theorem Inv.drop (hi : Inv p s) (hcall : s.call = some c) (hleft : ∀ w, s.worker = some w →
    c.Unsent ∨ w.process = .exited ∨ Barren p [] w) : Inv p { s with call := none } where
  idle := by
    intro _ w hworker
    rcases hleft w hworker with (hspawning | hunsent) | hexited | hbarren
    · exact .inl (hi.spawning c hcall hspawning w hworker)
    · have hserves := hi.busy c w hcall hworker (by simp [hunsent]) (by simp [hunsent])
      rcases hserves.pipes with hex | hbarren
      · exact .inr (.inl (hex.clean hunsent))
      · rw [hunsent] at hbarren
        exact .inr (.inr hbarren)
    · exact .inl hexited
    · exact .inr (.inr hbarren)
  spawning := by rintro _ ⟨⟩
  busy := by rintro _ _ ⟨⟩
  paired := hi.paired

theorem Inv.lock (hi : Inv p s) (request : Request)
    (hworker : ∀ w, s.worker = some w → w.isAlive = false) :
    Inv p { s with call := some ⟨request, 0, .spawning⟩ } where
  idle := by rintro ⟨⟩
  spawning := by
    intro _ _ _ w hw
    simpa [ScriptWorker.isAlive] using hworker w hw
  busy := by
    rintro _ _ ⟨⟩ _ hspawning
    exact absurd rfl hspawning
  paired := hi.paired

theorem Inv.wait (hi : Inv p s) (waiting : List Request) : Inv p { s with waiting } :=
  ⟨hi.idle, hi.spawning, hi.busy, hi.paired⟩

theorem Inv.step (hi : Inv p s) (hg : Allowed p s e) (h : Engine.step p lang s e = some s') :
    Inv p s' := by
  cases e with
  | execute request =>
    simp only [Engine.step] at h
    split at h
    · cases h
      exact hi.refuse _ _
    · split at h
      · cases h
        exact hi.refuse _ _
      · cases h
        exact hi.wait _
  | leave i =>
    cases h
    exact hi.wait _
  | lock =>
    simp only [Engine.step] at h
    split at h
    · rename_i request waiting hcall _
      split at h
      · rename_i hworker
        cases h
        exact (hi.wait waiting).lock request (by simp [hworker])
      · rename_i w hworker
        split at h
        · rename_i halive
          cases h
          exact (hi.wait waiting).send request (hi.idle hcall w hworker)
            (by simpa [ScriptWorker.isAlive] using halive)
        · rename_i hdead
          cases h
          exact (hi.wait waiting).lock request (by simpa [hworker] using hdead)
    · cases h
  | spawned =>
    simp only [Engine.step] at h
    split at h
    · cases h
      exact hi.send _ spawn_settled Process.noConfusion
    · cases h
  | spawnError e =>
    simp only [Engine.step] at h
    split at h
    · rename_i hcall
      cases h
      exact (hi.drop hcall fun _ _ => .inl (.inl rfl)).refuse _ _
    · cases h
  | drop =>
    simp only [Engine.step] at h
    split at h
    · rename_i hsome
      cases h
      obtain ⟨c, hcall⟩ := Option.isSome_iff_exists.mp hsome
      exact hi.drop hcall fun w => hg rfl c w hcall
    · cases h
  | answer response =>
    simp only [Engine.step] at h
    split at h
    · rename_i w hworker
      split at h
      · rename_i line rest hl
        split at h
        · rename_i hok
          cases h
          exact hi.answer hworker hok.2 hok.1 hl
        · cases h
      · cases h
    · cases h
  | exit =>
    simp only [Engine.step, Option.map_eq_some_iff] at h
    obtain ⟨w, hworker, rfl⟩ := h
    exact hi.exit hworker
  | write n | pipe n | writeError e | flushed | flushError e | read n | readError e | eof
  | timeout | killed =>
    simp only [Engine.step] at h
    split at h
    · rename_i hcall hworker
      exact hi.advance hcall hworker h
    · cases h

theorem inv_init : Inv p .init := by
  constructor <;> simp [Engine.init]

end

/-- In runs whose drops are all allowed, every call that returns `Ok` returns
the response to its own request. -/
theorem responses_paired (p : Parsers) (lang : Language) (events : List Event)
    (h : Guarded (Engine.step p lang) (Allowed p) .init events) :
    Always (Engine.step p lang) (fun s => ∀ x ∈ s.returned, x.Paired p) .init events :=
  (h.invariant inv_init fun _ _ _ hi hg hs => hi.step hg hs).mono fun _ hi => hi.paired

-- ---------------------------------------------------------------------------
-- A call that is dropped while it reads
-- ---------------------------------------------------------------------------

def replyText (result : String) : String :=
  "\x7b\"r\": \"" ++ result ++ "\", \"o\": \"\", \"c\": 0\x7d"

/-- The parsers on the replies with `a` and with `b`. -/
def twoReplies : Parsers where
  fromStr text :=
    if text = replyText "YQ==" ++ "\n" then
      .ok (.object [("c", .number (.posInt 0)), ("o", .string ""), ("r", .string "YQ==")])
    else if text = replyText "Yg==" ++ "\n" then
      .ok (.object [("c", .number (.posInt 0)), ("o", .string ""), ("r", .string "Yg==")])
    else .error "expected value at line 1 column 1"
  base64Decode text :=
    if text = "YQ==" then .ok [97] else if text = "Yg==" then .ok [98] else .error "Invalid padding"

def enabledPython : Language := pythonEngine ⟨true, 30, ""⟩

def scriptA : Request := ⟨[65], []⟩

def scriptB : Request := ⟨[66], []⟩

/-- From the lock to the response of a worker that answers at once. -/
def exchange (reply : String) : List Event :=
  [.write 64, .pipe 64, .flushed, .answer (utf8Bytes (replyText reply)), .read 64]

def returns (p : Parsers) (lang : Language) (events : List Event) : Option (List Execution) :=
  (run (Engine.step p lang) .init events).map (·.returned)

/-- The first call is dropped while its worker is being spawned. -/
theorem responses_paired_early_drop :
    returns twoReplies enabledPython
      ([.execute scriptA, .lock, .drop, .execute scriptB, .lock, .spawned] ++ exchange "Yg==") =
      some [⟨scriptB, 0, [(scriptB.line, utf8Bytes (replyText "Yg=="))], .ok ⟨"", [98], 0⟩⟩] ∧
    Always (Engine.step twoReplies enabledPython)
      (fun s => ∀ x ∈ s.returned, x.Paired twoReplies) .init
      ([.execute scriptA, .lock, .drop, .execute scriptB, .lock, .spawned] ++ exchange "Yg==") := by
  refine ⟨by decide +kernel, responses_paired _ _ _ ?_⟩
  rintro _ ⟨⟩
  refine ⟨Event.noConfusion, ?_⟩
  rintro _ ⟨⟩
  refine ⟨Event.noConfusion, ?_⟩
  rintro _ ⟨⟩
  refine ⟨by rintro - _ _ - ⟨⟩, ?_⟩
  have hlater : ∀ s events, (∀ e ∈ events, e ≠ Event.drop) →
      Guarded (Engine.step twoReplies enabledPython) (Allowed twoReplies) s events := by
    intro s events he
    induction events generalizing s with
    | nil => trivial
    | cons e events ih =>
      refine fun s' _ => ⟨fun hdrop => absurd hdrop (he e List.mem_cons_self), ih s' ?_⟩
      exact fun e' h => he e' (List.mem_cons_of_mem _ h)
  exact hlater _ _ (by simp [exchange])

/-- The first call is dropped after it has flushed its request; the second one
returns the response to it. -/
def abandonedRun : List Event :=
  [.execute scriptA, .lock, .spawned, .write 64, .pipe 64, .flushed, .drop,
    .execute scriptB, .lock] ++ exchange "YQ=="

def mispaired : Execution :=
  ⟨scriptB, 1, [(scriptA.line, utf8Bytes (replyText "YQ=="))], .ok ⟨"", [97], 0⟩⟩

theorem abandoned_response_returned :
    returns twoReplies enabledPython abandonedRun = some [mispaired] ∧
    ¬ Always (Engine.step twoReplies enabledPython)
      (fun s => ∀ x ∈ s.returned, x.Paired twoReplies) .init abandonedRun := by
  have hreturns : returns twoReplies enabledPython abandonedRun = some [mispaired] := by
    decide +kernel
  refine ⟨hreturns, fun h => ?_⟩
  obtain ⟨s, hrun, hs⟩ := Option.map_eq_some_iff.mp hreturns
  obtain ⟨response, hline, -⟩ := h.last hrun mispaired (by simp [hs]) _ rfl
  cases hline

end Rinfra.Script
