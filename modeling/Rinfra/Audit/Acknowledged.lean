import Rinfra.Audit.FileLogger
import Rinfra.Lib.Transition

/-!
# Acknowledged events are found again

A record reads back if it is whole and begins a line of its own, in a file that is
UTF-8. `log` answers `Ok` without asking for either: what `flush` says is
dropped, and the line is appended to whatever the file ends with. In the runs in
which each record that is acknowledged gets whole onto a file that is in order, and
what is left of the others cuts no character, every query finds the
acknowledged events, and no others than those logged or in the file before.
-/

namespace Rinfra.Audit

open Lib Lib.Json

section
variable (json : EventJson)

def readLine (line : List Char) : Option AuditEvent :=
  if trim line = [] then none else json.fromStr line

def records (cs : List Char) : List AuditEvent := (lines cs).filterMap (readLine json)

def endedRecords (cs : List Char) : List AuditEvent :=
  ((splitLines cs).ended.map stripReturn).filterMap (readLine json)

def fileRecords (content : List UInt8) : List AuditEvent :=
  records json ((fromUtf8 content).getD "").toList

def Receives (s : Logger) (event : AuditEvent) : Prop :=
  ∃ str, fromUtf8 s.file.content = some str ∧
    json.fromStr ((splitLines str.toList).rest ++ record json event) = some event

/-- What a record has left in the file is whole characters, unless there is nothing to
lose yet, and its line reads as no event but this one. -/
def Tolerates (s : Logger) (event : AuditEvent) (bytes : List UInt8) : Prop :=
  ∀ str, fromUtf8 s.file.content = some str →
    match fromUtf8 bytes with
    | none => s.acknowledged = []
    | some left => ∀ event',
      readLine json ((splitLines str.toList).rest ++ left.toList.takeWhile (· ≠ '\n')) =
        some event' → event' = event ∨ event' ∈ records json str.toList

/-- What has to hold of a call, and of the file that it finds. -/
def Intact (s : Logger) : Call → Prop
  | .log event opening write flush => s.opened = true ∨ opening = .ok →
    match write, flush with
    | .error n _, _ => Tolerates json s event ((recordLine json event).take n)
    | .ok _, .ok => Receives json s event
    | .ok n, .error m => (recordLine json event).length ≤ n + m ∧ Receives json s event
  | .query filter readable =>
    readable = true ∨ ∀ event ∈ s.acknowledged, filter.matches event = false

/-- A query with room for all events answers with the acknowledged ones that
match, in order, and with nothing that was never logged. -/
def Returned (initial : List UInt8) (s : Logger) : Call → Prop
  | .log .. => True
  | .query filter readable =>
    ((fileRecords json initial).length + s.logged.length < filter.limit →
      (s.acknowledged.filter filter.matches).Sublist (s.query json filter readable)) ∧
    ∀ event ∈ s.query json filter readable, event ∈ s.logged ∨ event ∈ fileRecords json initial

structure Inv (initial : List UInt8) (s : Logger) : Prop where
  buffer : s.file.buffer = []
  unreadable : fromUtf8 s.file.content = none → s.acknowledged = []
  kept : ∀ str, fromUtf8 s.file.content = some str →
    s.acknowledged.Sublist (endedRecords json str.toList)
  known : ∀ event ∈ fileRecords json s.file.content,
    event ∈ s.logged ∨ event ∈ fileRecords json initial
  count : (fileRecords json s.file.content).length ≤
    (fileRecords json initial).length + s.logged.length

variable {json} {s : Logger} {initial : List UInt8}

-- ---------------------------------------------------------------------------
-- The loop of a query
-- ---------------------------------------------------------------------------

variable (json) in
theorem collect_take (filter : AuditFilter) (ls : List (List Char)) {results : List AuditEvent}
    (h : results.length < max filter.limit 1) :
    collect json filter ls results = results ++
      ((ls.filterMap (readLine json)).filter filter.matches).take
        (max filter.limit 1 - results.length) := by
  induction ls generalizing results with
  | nil => simp [collect]
  | cons line ls ih =>
    unfold collect
    split
    · rename_i hblank
      have hread : readLine json line = none := by simp [readLine, hblank]
      rw [List.filterMap_cons_none hread]
      exact ih h
    · rename_i hblank
      split
      · rename_i event hevent
        have hread : readLine json line = some event := by simp [readLine, hblank, hevent]
        rw [List.filterMap_cons_some hread]
        split
        · rename_i hmatch
          have hroom : max filter.limit 1 - results.length =
              (max filter.limit 1 - (results ++ [event]).length) + 1 := by
            rw [List.length_append, List.length_singleton]
            omega
          rw [List.filter_cons_of_pos hmatch, hroom, List.take_succ_cons]
          simp only
          split
          · rename_i hfull
            have hlast : max filter.limit 1 - (results ++ [event]).length = 0 := by
              rw [List.length_append, List.length_singleton] at hfull ⊢
              omega
            rw [hlast, List.take_zero]
          · rename_i hfull
            rw [ih (by omega), List.append_assoc]
            rfl
        · rename_i hmatch
          rw [List.filter_cons_of_neg hmatch]
          exact ih h
      · rename_i hevent
        have hread : readLine json line = none := by simp [readLine, hblank, hevent]
        rw [List.filterMap_cons_none hread]
        exact ih h

variable (json) in
theorem collect_eq (filter : AuditFilter) (ls : List (List Char))
    (h : ((ls.filterMap (readLine json)).filter filter.matches).length < filter.limit) :
    collect json filter ls [] = (ls.filterMap (readLine json)).filter filter.matches := by
  have hroom : ([] : List AuditEvent).length < max filter.limit 1 := by simp
  rw [collect_take json filter ls hroom, List.nil_append, List.take_of_length_le (by simp; omega)]

theorem mem_collect {filter : AuditFilter} {ls : List (List Char)}
    (h : event ∈ collect json filter ls results) :
    event ∈ results ∨ event ∈ ls.filterMap (readLine json) := by
  induction ls generalizing results with
  | nil => exact .inl h
  | cons line ls ih =>
    have hmore : event ∈ results ∨ event ∈ ls.filterMap (readLine json) →
        event ∈ results ∨ event ∈ (line :: ls).filterMap (readLine json) := by
      refine Or.imp_right fun hmem => ?_
      exact (List.Sublist.filterMap _ (List.sublist_cons_self line ls)).subset hmem
    unfold collect at h
    split at h
    · exact hmore (ih h)
    · rename_i hblank
      split at h
      · rename_i event' hevent
        have hread : readLine json line = some event' := by simp [readLine, hblank, hevent]
        have hhere : event ∈ results ++ [event'] →
            event ∈ results ∨ event ∈ (line :: ls).filterMap (readLine json) := by
          rw [List.filterMap_cons_some hread]
          simp only [List.mem_append, List.mem_cons, List.not_mem_nil, or_false]
          exact Or.imp_right .inl
        split at h
        · simp only at h
          split at h
          · exact hhere h
          · rcases ih h with hmem | hmem
            · exact hhere hmem
            · exact hmore (.inr hmem)
        · exact hmore (ih h)
      · exact hmore (ih h)

-- ---------------------------------------------------------------------------
-- What a record does to the file
-- ---------------------------------------------------------------------------

theorem plain_record (event : AuditEvent) : Plain (record json event) := plain_text _ _

theorem newline_notMem_record (event : AuditEvent) : '\n' ∉ record json event := by
  intro h
  exact absurd (plain_record event _ h) (by decide)

theorem return_notMem_record (event : AuditEvent) : '\r' ∉ record json event := by
  intro h
  exact absurd (plain_record event _ h) (by decide)

variable (json) in
theorem record_cons (event : AuditEvent) : ∃ cs, record json event = '\x7b' :: cs := ⟨_, rfl⟩

theorem readLine_record (rest : List Char) (event : AuditEvent) :
    readLine json (rest ++ record json event) = json.fromStr (rest ++ record json event) := by
  obtain ⟨cs, hcs⟩ := record_cons json event
  refine if_neg fun hblank => ?_
  have hall := trim_eq_nil.mp hblank
  exact absurd (hall '\x7b' (by simp [hcs])) (by decide)

theorem records_eq (cs : List Char) : records json cs = endedRecords json cs ++
    (if (splitLines cs).rest = [] then [] else [(splitLines cs).rest]).filterMap
      (readLine json) :=
  List.filterMap_append ..

variable (json) in
theorem endedRecords_sublist (cs : List Char) :
    (endedRecords json cs).Sublist (records json cs) := by
  rw [records_eq]
  exact List.sublist_append_left ..

theorem endedRecords_line (cs : List Char) (event : AuditEvent) :
    endedRecords json (cs ++ (record json event ++ ['\n'])) = endedRecords json cs ++
      (json.fromStr ((splitLines cs).rest ++ record json event)).toList := by
  obtain ⟨ds, hds⟩ := record_cons json event
  have hstrip : stripReturn ((splitLines cs).rest ++ record json event) = _ :=
    stripReturn_append _ (by simp [hds]) (return_notMem_record event)
  unfold endedRecords
  rw [splitLines_line cs (newline_notMem_record event), List.map_append, List.filterMap_append]
  simp only [List.map_cons, List.map_nil, hstrip, List.filterMap_cons, readLine_record,
    List.filterMap_nil]
  cases json.fromStr ((splitLines cs).rest ++ record json event) <;> rfl

theorem records_line (cs : List Char) (event : AuditEvent) :
    records json (cs ++ (record json event ++ ['\n'])) = endedRecords json cs ++
      (json.fromStr ((splitLines cs).rest ++ record json event)).toList := by
  rw [records_eq, endedRecords_line, splitLines_line cs (newline_notMem_record event), if_pos rfl,
    List.filterMap_nil, List.append_nil]

theorem endedRecords_part (cs : List Char) (h : '\n' ∉ ds) :
    endedRecords json (cs ++ ds) = endedRecords json cs := by
  rw [endedRecords, splitLines_append cs h, endedRecords]

/-- What there is of a record goes on with the last line. -/
theorem records_part (cs : List Char) (h : '\n' ∉ ds) :
    records json (cs ++ ds) = endedRecords json cs ++
      (readLine json ((splitLines cs).rest ++ ds)).toList := by
  rw [records_eq, endedRecords_part cs h, splitLines_append cs h]
  congr 1
  by_cases hempty : (splitLines cs).rest ++ ds = []
  · rw [if_pos hempty, hempty]
    rfl
  · rw [if_neg hempty, List.filterMap_cons, List.filterMap_nil]
    cases readLine json ((splitLines cs).rest ++ ds) <;> rfl

-- ---------------------------------------------------------------------------
-- The invariant
-- ---------------------------------------------------------------------------

variable (json) in
theorem fileRecords_some {content : List UInt8} (h : fromUtf8 content = some str) :
    fileRecords json content = records json str.toList := by
  rw [fileRecords, h, Option.getD_some]

theorem fileRecords_none {content : List UInt8} (h : fromUtf8 content = none) :
    fileRecords json content = [] := by
  rw [fileRecords, h]
  rfl

theorem inv_new (initial : List UInt8) : Inv json initial (Logger.new initial) where
  buffer := rfl
  unreadable _ := rfl
  kept _ _ := List.nil_sublist _
  known _ h := .inr h
  count := Nat.le_add_right _ _

theorem Inv.of_unreadable (hbuffer : s.file.buffer = []) (h : fromUtf8 s.file.content = none)
    (hnone : s.acknowledged = []) : Inv json initial s where
  buffer := hbuffer
  unreadable _ := hnone
  kept str hstr := absurd (h.symm.trans hstr) nofun
  known e he := by
    rw [fileRecords_none h] at he
    cases he
  count := by
    rw [fileRecords_none h]
    exact Nat.zero_le _

theorem Inv.logged (hi : Inv json initial s) (event : AuditEvent) :
    Inv json initial { s with logged := s.logged ++ [event] } where
  buffer := hi.buffer
  unreadable := hi.unreadable
  kept := hi.kept
  known e he := (hi.known e he).imp_left (List.mem_append_left _)
  count := by
    have := hi.count
    simp only [List.length_append, List.length_singleton]
    omega

theorem Inv.extend {s' : Logger} {last : Option AuditEvent} (hi : Inv json initial s)
    (hstr : fromUtf8 s.file.content = some str) (hnew : fromUtf8 s'.file.content = some str')
    (hbuffer : s'.file.buffer = []) (hlogged : s'.logged = s.logged ++ [event])
    (hkept : s'.acknowledged.Sublist (endedRecords json str'.toList))
    (hrecords : records json str'.toList = endedRecords json str.toList ++ last.toList)
    (hlast : ∀ e ∈ last, e = event ∨ e ∈ records json str.toList) : Inv json initial s' := by
  have hi' := hi.logged event
  have hold := fileRecords_some json hstr
  have hsub := endedRecords_sublist json str.toList
  rw [← fileRecords_some json hnew] at hrecords
  refine ⟨hbuffer, fun hnone => ?_, fun str'' hstr'' => ?_, fun e he => ?_, ?_⟩
  · exact absurd (hnone.symm.trans hnew) nofun
  · obtain rfl := Option.some.inj (hnew.symm.trans hstr'')
    exact hkept
  · rw [hlogged]
    rw [hrecords] at he
    rcases List.mem_append.mp he with he | he
    · exact hi'.known e (hold ▸ hsub.subset he)
    · rcases hlast e (Option.mem_toList.mp he) with rfl | he
      · exact .inl (List.mem_append_right _ List.mem_cons_self)
      · exact hi'.known e (hold ▸ he)
  · have hcount := hold ▸ hi.count
    have hlen := hsub.length_le
    have hone : last.toList.length ≤ 1 := Option.length_toList_le
    rw [hrecords, hlogged]
    simp only [List.length_append, List.length_singleton]
    omega

theorem Inv.receive (hi : Inv json initial s) (h : Receives json s event) :
    Inv json initial { s.put event (recordLine json event) with
      acknowledged := s.acknowledged ++ [event] } := by
  obtain ⟨str, hstr, hread⟩ := h
  have hnew : fromUtf8 (s.put event (recordLine json event)).file.content =
      some (str ++ String.ofList (record json event ++ ['\n'])) := by
    rw [fromUtf8_eq_some, utf8Bytes_append, ← fromUtf8_eq_some.mp hstr]
    rfl
  have hlist : (str ++ String.ofList (record json event ++ ['\n'])).toList =
      str.toList ++ (record json event ++ ['\n']) := by simp
  have hlast : ∀ e ∈ some event, e = event ∨ e ∈ records json str.toList :=
    fun e he => .inl (Option.some.inj he).symm
  refine hi.extend hstr hnew rfl rfl ?_ ?_ hlast
  · rw [hlist, endedRecords_line, hread]
    exact (hi.kept str hstr).append (.refl _)
  · rw [hlist, records_line, hread]

theorem record_part {bytes : List UInt8} (h : bytes <+: recordLine json event)
    (hleft : fromUtf8 bytes = some left) :
    left.toList <+: record json event ∨ left.toList = record json event ++ ['\n'] := by
  obtain ⟨rest, hrest⟩ := h
  rw [fromUtf8_eq_some.mp hleft, recordLine] at hrest
  obtain ⟨u, hu, -⟩ := utf8Bytes_prefix hrest
  have hprefix : left.toList <+: record json event ++ ['\n'] := by
    refine ⟨u.toList, ?_⟩
    rw [← String.toList_append, ← hu, String.toList_ofList]
  rcases List.prefix_concat_iff.mp hprefix with h | h
  · exact .inr h
  · exact .inl h

theorem takeWhile_record {cs : List Char} (h : cs <+: record json event) :
    cs.takeWhile (· ≠ '\n') = cs := by
  refine List.takeWhile_eq_self_iff.mpr fun c hc => ?_
  rw [decide_eq_true_eq]
  rintro rfl
  exact newline_notMem_record event (h.subset hc)

theorem records_left {left : List Char} (cs : List Char)
    (h : left <+: record json event ∨ left = record json event ++ ['\n']) :
    records json (cs ++ left) = endedRecords json cs ++
        (readLine json ((splitLines cs).rest ++ left.takeWhile (· ≠ '\n'))).toList ∧
      (endedRecords json cs).Sublist (endedRecords json (cs ++ left)) := by
  rcases h with h | rfl
  · have hnl : '\n' ∉ left := fun hc => newline_notMem_record event (h.subset hc)
    rw [takeWhile_record h, records_part cs hnl, endedRecords_part cs hnl]
    exact ⟨rfl, .refl _⟩
  · have hcut : (record json event ++ ['\n']).takeWhile (· ≠ '\n') = record json event := by
      rw [List.takeWhile_append, takeWhile_record (List.prefix_refl _)]
      simp
    rw [hcut, records_line, readLine_record, endedRecords_line]
    exact ⟨rfl, List.sublist_append_left ..⟩

theorem unreadable_put {content bytes : List UInt8} (hbytes : bytes <+: recordLine json event)
    (h : fromUtf8 content = none) : fromUtf8 (content ++ bytes) = none := by
  cases bytes with
  | nil => rwa [List.append_nil]
  | cons b rest =>
    obtain ⟨cs, hcs⟩ := record_cons json event
    obtain ⟨tail, htail⟩ := hbytes
    have hb : b = 0x7B := by
      rw [recordLine, utf8Bytes_ofList, hcs] at htail
      exact (List.cons.inj htail).1
    cases hnew : fromUtf8 (content ++ b :: rest) with
    | none => rfl
    | some t =>
      have hsome := isSome_fromUtf8_of_append (fromUtf8_eq_some.mp hnew) (by rw [hb]; decide)
      simp [h] at hsome

/-- What a failed write leaves does no harm to the records before it. -/
theorem Inv.tolerate {bytes : List UInt8} (hi : Inv json initial s)
    (h : Tolerates json s event bytes) (hbytes : bytes <+: recordLine json event) :
    Inv json initial (s.put event bytes) := by
  cases hstr : fromUtf8 s.file.content with
  | none =>
    have hnew : fromUtf8 (s.put event bytes).file.content = none := unreadable_put hbytes hstr
    exact .of_unreadable rfl hnew (hi.unreadable hstr)
  | some str =>
    have hcontent := fromUtf8_eq_some.mp hstr
    have h := h str hstr
    cases hleft : fromUtf8 bytes with
    | none =>
      rw [hleft] at h
      refine .of_unreadable rfl ?_ h
      cases hnew : fromUtf8 (s.put event bytes).file.content with
      | none => rfl
      | some t =>
        have hnew : s.file.content ++ bytes = utf8Bytes t := fromUtf8_eq_some.mp hnew
        rw [hcontent] at hnew
        obtain ⟨u, -, hu⟩ := utf8Bytes_prefix hnew
        rw [hu, fromUtf8_utf8Bytes] at hleft
        cases hleft
    | some left =>
      simp only [hleft] at h
      have hnew : fromUtf8 (s.put event bytes).file.content = some (str ++ left) := by
        rw [fromUtf8_eq_some, utf8Bytes_append, ← hcontent, ← fromUtf8_eq_some.mp hleft]
        rfl
      obtain ⟨hrecords, hkept⟩ := records_left str.toList (record_part hbytes hleft)
      rw [← String.toList_append] at hrecords hkept
      exact hi.extend hstr hnew rfl rfl ((hi.kept str hstr).trans hkept) hrecords h

theorem Inv.step {s' : Logger} (hi : Inv json initial s) (hg : Intact json s call)
    (h : s.step json call = some s') : Inv json initial s' := by
  cases Logger.moves hi.buffer h with
  | unopened => exact hi.logged _
  | failed hopen => exact hi.tolerate (hg hopen) (List.take_prefix ..)
  | flushed hopen => exact hi.receive (hg hopen)
  | @unflushed event n m opening hopen =>
    obtain ⟨hwhole, hreceives⟩ := hg hopen
    rw [List.take_of_length_le hwhole]
    exact hi.receive hreceives
  | query => exact hi

theorem Inv.returned (hi : Inv json initial s) (hg : Intact json s call) :
    Returned json initial s call := by
  cases call with
  | log => trivial
  | query filter readable =>
    cases readable with
    | false =>
      have hnone : s.acknowledged.filter filter.matches = [] := by
        simpa [List.filter_eq_nil_iff, Intact] using hg
      rw [Returned, hnone]
      refine ⟨fun _ => List.nil_sublist _, fun e he => ?_⟩
      cases he
    | true =>
      have hquery : s.query json filter true =
          collect json filter (lines ((fromUtf8 s.file.content).getD "").toList) [] := rfl
      refine ⟨fun hroom => ?_, fun e he => ?_⟩
      · have hshort := List.length_filter_le filter.matches (fileRecords json s.file.content)
        have hall := collect_eq json filter (lines ((fromUtf8 s.file.content).getD "").toList)
          (Nat.lt_of_le_of_lt (hshort.trans hi.count) hroom)
        rw [hquery, hall]
        apply List.Sublist.filter
        cases hstr : fromUtf8 s.file.content with
        | none =>
          rw [hi.unreadable hstr]
          exact List.nil_sublist _
        | some str => exact (hi.kept str hstr).trans (endedRecords_sublist json _)
      · exact hi.known e ((mem_collect he).resolve_left List.not_mem_nil)

end

section
variable (json : EventJson) (initial : List UInt8)

/-- Whatever earlier runs have left in the file: as long as every record that is
acknowledged gets whole onto a file in order, and no other does it harm, every
query answers with the acknowledged events and only with events that were logged. -/
theorem intact_returned (calls : List Call)
    (hg : Guarded (Logger.step json) (Intact json) (Logger.new initial) calls) :
    Guarded (Logger.step json) (Returned json initial) (Logger.new initial) calls :=
  hg.imp (inv_new initial) (fun _ _ _ hi hg h => hi.step hg h) fun _ _ _ hi hg _ => hi.returned hg

end

def userCreated : AuditEvent where
  id := "1"
  timestampMs := 5
  actor := "admin"
  action := "user.create"
  resource := "user"
  resourceId := none
  outcome := .success
  ip := none
  details := .null

def oneEventJson : EventJson where
  fromStr line :=
    if line = text noFloats userCreated.json then some userCreated else none
  floats := noFloats

theorem intact_returned_logged_once :
    let calls : List Call := [.log userCreated .ok (.ok 3) .ok, .query .new true]
    Guarded (Logger.step oneEventJson) (Intact oneEventJson) (Logger.new []) calls ∧
      Guarded (Logger.step oneEventJson) (Returned oneEventJson []) (Logger.new []) calls := by
  have hread : oneEventJson.fromStr (record oneEventJson userCreated) = some userCreated := by
    simp only [oneEventJson, record, ↓reduceIte]
  have hintact : Guarded (Logger.step oneEventJson) (Intact oneEventJson) (Logger.new [])
      [.log userCreated .ok (.ok 3) .ok, .query .new true] := by
    rintro s' -
    refine ⟨fun _ => ⟨"", rfl, hread⟩, ?_⟩
    rintro s'' -
    exact ⟨.inl rfl, trivial⟩
  exact ⟨hintact, intact_returned oneEventJson [] _ hintact⟩

theorem not_returned_of_empty {json : EventJson} {s : Logger} {initial : List UInt8}
    (hempty : (s.query json filter readable).length = 0)
    (hroom : (fileRecords json initial).length + s.logged.length < filter.limit)
    (hevent : (s.acknowledged.filter filter.matches).length = 1) :
    ¬ Returned json initial s (.query filter readable) := by
  intro h
  have hlen := (h.1 hroom).length_le
  omega

/-- `flush` fails, and the event that was acknowledged is in no answer. The same where
the last line was cut off by a crash: the record is glued to it. -/
theorem acknowledged_event_lost :
    ¬ Guarded (Logger.step oneEventJson) (Returned oneEventJson []) (Logger.new [])
      [.log userCreated .ok (.ok 0) (.error 0), .query .new true] ∧
    ¬ Guarded (Logger.step oneEventJson) (Returned oneEventJson (utf8Bytes "\x7b\"id\":\"0"))
      (Logger.new (utf8Bytes "\x7b\"id\":\"0"))
      [.log userCreated .ok (.ok 0) .ok, .query .new true] := by
  constructor
  · intro h
    have hquery := ((h _ rfl).2 _ rfl).1
    exact not_returned_of_empty (by decide +kernel) (by decide +kernel) (by decide +kernel) hquery
  · intro h
    have hquery := ((h _ rfl).2 _ rfl).1
    exact not_returned_of_empty (by decide +kernel) (by decide +kernel) (by decide +kernel) hquery

end Rinfra.Audit
