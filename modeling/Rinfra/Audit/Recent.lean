import Mathlib.Data.List.DropRight
import Mathlib.Data.List.PeriodicityLemma
import Rinfra.Audit.Acknowledged

/-!
# Which events a query returns

The trait promises recent events. `query` reads the file from its beginning and
stops once it has as many events as the filter asks for, so what it leaves out are the
newest ones. It looks at the limit after it has taken an event, so that a limit of
zero lets one event through.
-/

namespace Rinfra.Audit

open Lib.Json

section
variable (json : EventJson)

/-- The file is text, and its lines that are not blank are records of these events. -/
def ValidFile (content : List UInt8) (events : List AuditEvent) : Prop :=
  ∃ str, fromUtf8 content = some str ∧
    ((lines str.toList).filter (trim · ≠ [])).map json.fromStr = events.map some

variable {json} {content : List UInt8} {events : List AuditEvent}

-- ---------------------------------------------------------------------------
-- Files of records
-- ---------------------------------------------------------------------------

theorem filterMap_readLine (ls : List (List Char)) :
    ls.filterMap (readLine json) =
      ((ls.filter (trim · ≠ [])).map json.fromStr).filterMap id := by
  induction ls with
  | nil => rfl
  | cons line ls ih =>
    by_cases hblank : trim line = []
    · have hread : readLine json line = none := if_pos hblank
      rw [List.filterMap_cons_none hread, List.filter_cons_of_neg (by simp [hblank])]
      exact ih
    · have hread : readLine json line = json.fromStr line := if_neg hblank
      rw [List.filter_cons_of_pos (by simp [hblank]), List.map_cons]
      cases hline : json.fromStr line with
      | none => rw [List.filterMap_cons_none (hread.trans hline), ih]; rfl
      | some event => rw [List.filterMap_cons_some (hread.trans hline), ih]; rfl

theorem ValidFile.fileRecords (h : ValidFile json content events) :
    fileRecords json content = events := by
  obtain ⟨str, hstr, hlines⟩ := h
  rw [fileRecords_some json hstr, records, filterMap_readLine, hlines, List.filterMap_map]
  exact List.filterMap_some

theorem stripReturn_record (event : AuditEvent) :
    stripReturn (record json event) = record json event := by
  obtain ⟨cs, hcs⟩ := record_cons json event
  have hne : record json event ≠ [] := by simp [hcs]
  exact stripReturn_append [] hne (return_notMem_record event)

theorem validFile_written (h : ∀ event ∈ events, json.fromStr (record json event) = some event) :
    ValidFile json (events.flatMap (recordLine json)) events := by
  have hbytes : events.flatMap (recordLine json) = utf8Bytes
      (String.ofList ((events.map (record json)).flatMap (· ++ ['\n']))) := by
    clear h
    induction events with
    | nil => rfl
    | cons event events ih =>
      rw [List.flatMap_cons, ih, recordLine, ← utf8Bytes_append, ← String.ofList_append]
      rfl
  have hlines : lines ((events.map (record json)).flatMap (· ++ ['\n'])) =
      events.map (record json) := by
    rw [lines_flatMap fun l hl => ?_, List.map_map]
    · exact List.map_congr_left fun event _ => stripReturn_record event
    · obtain ⟨event, -, rfl⟩ := List.mem_map.mp hl
      exact newline_notMem_record event
  have hfull : ∀ line ∈ events.map (record json), decide (trim line ≠ []) = true := by
    intro line hline
    obtain ⟨event, -, rfl⟩ := List.mem_map.mp hline
    obtain ⟨cs, hcs⟩ := record_cons json event
    rw [decide_eq_true_eq]
    intro hblank
    exact absurd (trim_eq_nil.mp hblank '\x7b' (by simp [hcs])) (by decide)
  refine ⟨_, fromUtf8_eq_some.mpr hbytes, ?_⟩
  rw [String.toList_ofList, hlines, List.filter_eq_self.mpr hfull, List.map_map]
  exact List.map_congr_left h

-- ---------------------------------------------------------------------------
-- The beginning of a list and its end
-- ---------------------------------------------------------------------------

/-- Where a list has events before its last ones, its first ones are the same only if
it repeats itself. -/
theorem take_eq_rtake_iff {α : Type} {l : List α} (h : n ≤ l.length) :
    l.take n = l.rtake n ↔ l.HasPeriod (l.length - n) := by
  have hoverlap : l.length - (l.length - n) = n := by omega
  rw [List.hasPeriod_iff_getElem?, hoverlap, List.rtake, List.ext_getElem?_iff]
  refine forall_congr' fun i => ?_
  rw [List.getElem?_take, List.getElem?_drop, Nat.add_comm]
  split
  · rename_i hi
    simp [hi]
  · rename_i hi
    have hout : l[i + (l.length - n)]? = none := List.getElem?_eq_none (by omega)
    simp [hi, hout]

theorem hasPeriod_of_nodup {α : Type} {l : List α} (hl : l.Nodup) (hp : p < l.length)
    (h : l.HasPeriod p) : p = 0 := by
  have hsame := List.hasPeriod_iff_getElem?.mp h 0 (by omega)
  rw [Nat.zero_add] at hsame
  exact ((List.getElem?_inj (by omega) hl).mp hsame).symm

theorem take_max_eq_rtake_iff {α : Type} (l : List α) (limit : Nat) :
    l.take (max limit 1) = l.rtake limit ↔
      l.length ≤ limit ∨ 0 < limit ∧ l.HasPeriod (l.length - limit) := by
  rcases Nat.le_total l.length limit with hall | hmore
  · have hrtake : l.rtake limit = l := by
      rw [List.rtake, Nat.sub_eq_zero_of_le hall, List.drop_zero]
    rw [List.take_of_length_le (by omega), hrtake]
    exact iff_of_true rfl (.inl hall)
  · cases limit with
    | zero =>
      cases l with
      | nil => simp
      | cons x l => simp
    | succ n =>
      rw [max_eq_left (by omega), take_eq_rtake_iff hmore]
      constructor
      · exact fun h => .inr ⟨Nat.succ_pos n, h⟩
      · rintro (hall | ⟨-, h⟩)
        · rw [Nat.sub_eq_zero_of_le hall]
          exact List.hasPeriod_zero l
        · exact h

-- ---------------------------------------------------------------------------
-- The query
-- ---------------------------------------------------------------------------

theorem query_eq_take {s : Logger} (h : ValidFile json s.file.content events)
    (filter : AuditFilter) :
    s.query json filter true = (events.filter filter.matches).take (max filter.limit 1) := by
  have hrecords : (lines ((fromUtf8 s.file.content).getD "").toList).filterMap (readLine json) =
      events := h.fileRecords
  have hroom : ([] : List AuditEvent).length < max filter.limit 1 := by simp
  have hcollect := collect_take json filter
    (lines ((fromUtf8 s.file.content).getD "").toList) hroom
  rw [hrecords] at hcollect
  simpa [Logger.query] using hcollect

theorem query_new (h : ValidFile json content events) (filter : AuditFilter) :
    (Logger.new content).query json filter true =
      (events.filter filter.matches).take (max filter.limit 1) :=
  query_eq_take h filter

/-- The answer is the last matching events exactly where none is left out, or where
leaving out the newest cannot be seen because the events repeat themselves; between
events that differ it can. -/
theorem query_recent_iff {s : Logger} (h : ValidFile json s.file.content events)
    (filter : AuditFilter) :
    let matching := events.filter filter.matches
    (s.query json filter true = matching.rtake filter.limit ↔
      matching.length ≤ filter.limit ∨
        0 < filter.limit ∧ matching.HasPeriod (matching.length - filter.limit)) ∧
    (matching.Nodup → (s.query json filter true = matching.rtake filter.limit ↔
      matching.length ≤ filter.limit)) := by
  dsimp only
  rw [query_eq_take h filter, take_max_eq_rtake_iff]
  refine ⟨Iff.rfl, fun hnodup => ⟨?_, .inl⟩⟩
  rintro (hall | ⟨hpos, hperiod⟩)
  · exact hall
  · by_contra hmore
    have hzero := hasPeriod_of_nodup hnodup (by omega) hperiod
    omega

end

def userDeleted : AuditEvent :=
  { userCreated with id := "2", timestampMs := 6, action := "user.delete" }

def twoEventsJson : EventJson where
  fromStr line := [userCreated, userDeleted].find? fun event => text noFloats event.json = line
  floats := noFloats

def twoEvents : List UInt8 := [userCreated, userDeleted].flatMap (recordLine twoEventsJson)

theorem validFile_twoEvents : ValidFile twoEventsJson twoEvents [userCreated, userDeleted] := by
  refine validFile_written fun event hevent => ?_
  have hdiffer : text noFloats userCreated.json ≠ text noFloats userDeleted.json := by
    decide +kernel
  rcases List.mem_pair.mp hevent with rfl | rfl
  · simp [twoEventsJson, record]
  · simp [twoEventsJson, record, hdiffer]

theorem query_recent_iff_twoEvents :
    ValidFile twoEventsJson twoEvents [userCreated, userDeleted] ∧
      (Logger.new twoEvents).query twoEventsJson .new true = [userCreated, userDeleted] :=
  ⟨validFile_twoEvents, (query_recent_iff (s := .new twoEvents) validFile_twoEvents .new).1.mpr
    (.inl (by decide))⟩

/-- With room for one event the older of the two is returned, and with room for none
there is one as well. -/
theorem newest_event_missing :
    ValidFile twoEventsJson twoEvents [userCreated, userDeleted] ∧
      (∀ event ∈
        (Logger.new twoEvents).query twoEventsJson { AuditFilter.new with limit := 1 } true,
        event.id = "1") ∧
      (∃ event ∈ [userCreated, userDeleted].rtake 1, event.id = "2") ∧
      ((Logger.new twoEvents).query twoEventsJson { AuditFilter.new with limit := 0 } true).length =
        1 := by
  have hquery := query_new validFile_twoEvents
  refine ⟨validFile_twoEvents, fun event hevent => ?_, ⟨userDeleted, ?_, rfl⟩, ?_⟩
  · rw [hquery] at hevent
    obtain rfl : event = userCreated := List.mem_singleton.mp hevent
    rfl
  · exact List.mem_singleton_self _
  · rw [hquery]
    rfl

end Rinfra.Audit
