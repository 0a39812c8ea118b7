import Mathlib.Data.Int.Order.Basic
import Rinfra.Lib.StableSort
import Rinfra.Net.Lifecycle

/-!
# The frames of a TCP connection

A frame goes through the pipeline of transforms, the inbound hooks, the handler
and the outbound hooks, and a reply goes back through the pipeline the other way
round. `FrameLog` sorts the calls of one frame by what they are, and `Handled`
says of them what a frame is due, whatever the components answer.
-/

namespace Rinfra.Net

open Lib

-- ---------------------------------------------------------------------------
-- The server
-- ---------------------------------------------------------------------------

/-- The address and the name of the listener only serve to bind it and to log. -/
structure TcpServer where
  handler : TcpHandler
  maxFrameSize : Nat
  pipeline : List ByteTransform
  middlewares : List TcpMiddleware

namespace TcpServer

def new (handler : TcpHandler) : TcpServer := ⟨handler, 65536, [], []⟩

def withMaxFrameSize (server : TcpServer) (size : Nat) : TcpServer :=
  { server with maxFrameSize := size }

def withPipeline (server : TcpServer) (pipeline : List ByteTransform) : TcpServer :=
  { server with pipeline }

/-- `sort_by_key` is stable. -/
def withMiddlewares (server : TcpServer) (middlewares : List TcpMiddleware) : TcpServer :=
  { server with middlewares := middlewares.mergeSort fun a b => a.order ≤ b.order }

/-- What `start` serves a stream with that it has accepted. -/
def serve (server : TcpServer) (writes : Nat → Bool) : Connection where
  handler := server.handler
  maxFrameSize := server.maxFrameSize
  pipeline := server.pipeline
  middlewares := server.middlewares
  writes := writes

end TcpServer

structure Compressor where
  name : String
  compress : Bytes → Except AppError Bytes
  decompress : Bytes → Except AppError Bytes

def compressorTransform (c : Compressor) : ByteTransform where
  name := c.name
  encode _ := c.compress
  decode _ := c.decompress

-- ---------------------------------------------------------------------------
-- Pipelines
-- ---------------------------------------------------------------------------

/-- `decode` returns what `encode` was given, on all that `encode` returns. -/
def ByteTransform.Inverts (t : ByteTransform) : Prop :=
  ∀ m n x y, t.encode m x = .ok y → t.decode n y = .ok x

theorem compressorTransform_inverts {c : Compressor}
    (h : ∀ x y, c.compress x = .ok y → c.decompress y = .ok x) :
    (compressorTransform c).Inverts := fun _ _ => h

theorem transformAll_append (f : ByteTransform → Bytes → Except AppError Bytes)
    (ts us : List ByteTransform) (x : Bytes) :
    transformAll f (ts ++ us) x = (transformAll f ts x).bind (transformAll f us) := by
  induction ts generalizing x with
  | nil => rfl
  | cons t ts ih =>
    simp only [List.cons_append, transformAll]
    cases f t x with
    | ok d => exact ih d
    | error e => rfl

theorem encodePipeline_cons {t : ByteTransform}
    (h : encodePipeline (t :: ts) m x = .ok y) :
    ∃ z, encodePipeline ts m x = .ok z ∧ t.encode m z = .ok y := by
  simp only [encodePipeline, List.reverse_cons, transformAll_append] at h
  cases hts : transformAll (·.encode m) ts.reverse x with
  | error e => simp [hts, Except.bind] at h
  | ok z =>
    refine ⟨z, hts, ?_⟩
    simp only [hts, Except.bind, transformAll] at h
    cases ht : t.encode m z with
    | error e => simp [ht] at h
    | ok d => simpa [ht] using h

/-- What went out through a pipeline comes back in through it. -/
theorem pipeline_round_trip (pipeline : List ByteTransform) (h : ∀ t ∈ pipeline, t.Inverts)
    (m n : Nat) (x y : Bytes) (hy : encodePipeline pipeline m x = .ok y) :
    decodePipeline pipeline n y = .ok x := by
  induction pipeline generalizing y with
  | nil =>
    obtain rfl := Except.ok.inj hy
    rfl
  | cons t ts ih =>
    obtain ⟨z, hz, hy⟩ := encodePipeline_cons hy
    have hdecode : t.decode n y = .ok z := h t List.mem_cons_self m n z y hy
    simp only [decodePipeline, transformAll, hdecode]
    exact ih (fun t ht => h t (List.mem_cons_of_mem _ ht)) z hz

/-- Puts a byte in front, and takes nothing without it. -/
def tagged (b : UInt8) : ByteTransform where
  name := "tagged"
  encode _ x := .ok (b :: x)
  decode _
    | c :: x => if c = b then .ok x else .error ⟨.invalidArgument, "no tag"⟩
    | [] => .error ⟨.invalidArgument, "no tag"⟩

def reversed : ByteTransform where
  name := "reversed"
  encode _ x := if x.length ≤ 8 then .ok x.reverse else .error ⟨.invalidArgument, "too long"⟩
  decode _ x := .ok x.reverse

theorem pipeline_round_trip_tagged :
    decodePipeline [tagged 1, reversed, tagged 2] 0 [1, 8, 7, 2] = .ok [7, 8] := by
  refine pipeline_round_trip _ ?_ 0 0 [7, 8] [1, 8, 7, 2] rfl
  intro t ht m n x y hy
  simp only [List.mem_cons, List.not_mem_nil, or_false] at ht
  obtain rfl | rfl | rfl := ht
  · cases hy
    simp [tagged]
  · by_cases hlen : x.length ≤ 8 <;> simp [reversed, hlen] at hy
    simp [reversed, ← hy]
  · cases hy
    simp [tagged]

-- ---------------------------------------------------------------------------
-- What a frame is due
-- ---------------------------------------------------------------------------

/-- A call of a message hook of the middleware at a place. -/
structure HookCall where
  place : Nat
  data : Bytes
  result : Except AppError (Option Bytes)

structure MessageCall where
  data : Bytes
  result : Except AppError (Option Bytes)

def passedOn : Except AppError (Option Bytes) → Option Bytes
  | .ok (some data) => some data
  | _ => none

def isError : Except AppError (Option Bytes) → Bool
  | .error _ => true
  | .ok _ => false

/-- The calls for one frame, sorted by what they are. -/
structure FrameLog where
  inbound : List HookCall
  messages : List MessageCall
  outbound : List HookCall
  sends : List (Bytes × Bool)

def FrameLog.calls (l : FrameLog) : List Call :=
  l.inbound.map (fun c => .onInbound c.place c.data c.result) ++
    l.messages.map (fun c => .onMessage c.data c.result) ++
    l.outbound.map (fun c => .onOutbound c.place c.data c.result) ++
    l.sends.map fun (out, sent) => .send out sent

def AllPassed (log : List HookCall) : Prop := ∀ c ∈ log, (passedOn c.result).isSome

instance (log : List HookCall) : Decidable (AllPassed log) :=
  inferInstanceAs (Decidable (∀ c ∈ log, _))

/-- What the last hook returned, or the data itself where there was none. -/
def lastReturned (data : Bytes) (log : List HookCall) : Bytes :=
  (log.getLast?.bind fun c => passedOn c.result).getD data

/-- Each hook gets what the one before returned, and is not called where that is
nothing. -/
def Linked : Bytes → List HookCall → Prop
  | _, [] => True
  | data, c :: log => c.data = data ∧
      (log = [] ∨ ∃ next, passedOn c.result = some next ∧ Linked next log)

/-- The hooks of the middlewares have been called from the first one on, and of
all of them if each let the data pass. -/
structure Chained (hook : TcpMiddleware → Bytes → Except AppError (Option Bytes))
    (mws : List (TcpMiddleware × Nat)) (data : Bytes) (log : List HookCall) : Prop where
  order : log.map HookCall.place <+: mws.map Prod.snd
  results : ∀ c ∈ log, ∃ mw, (mw, c.place) ∈ mws ∧ c.result = hook mw c.data
  linked : Linked data log
  complete : AllPassed log → log.map HookCall.place = mws.map Prod.snd

def FrameLog.replies (l : FrameLog) : List Bytes := l.messages.filterMap fun c => passedOn c.result

def FrameLog.handed (l : FrameLog) : List Bytes :=
  if AllPassed l.outbound then l.replies.map fun reply => lastReturned reply l.outbound else []

structure Handled (conn : Connection) (seq : Nat) (data : Bytes) (l : FrameLog) (goesOn : Bool) :
    Prop where
  inbound : Chained (·.onInbound seq) conn.middlewares.zipIdx data l.inbound
  messages : l.messages =
    if AllPassed l.inbound then
      let last := lastReturned data l.inbound
      [⟨last, conn.handler.onMessage seq last⟩]
    else []
  outbound : l.replies = [] ∧ l.outbound = [] ∨ ∃ reply, l.replies = [reply] ∧
    Chained (·.onOutbound seq) conn.middlewares.zipIdx.reverse reply l.outbound
  sends : l.sends =
    (l.handed.filterMap fun final => (encodePipeline conn.pipeline seq final).toOption).map
      fun out => (out, decide (out.length ≤ conn.maxFrameSize) && conn.writes seq)
  once : l.sends.length ≤ 1
  goesOn : goesOn = true ↔ (∀ c ∈ l.messages, isError c.result = false) ∧
    (∀ final ∈ l.handed, (encodePipeline conn.pipeline seq final).toOption ≠ none) ∧
    ∀ s ∈ l.sends, s.2 = true

/-- The logs of the frames that are processed, one after the other, and whether
the loop has ended. -/
inductive Processed (conn : Connection) : Nat → List Arrival → List FrameLog → Bool → Prop
  | waits (seq : Nat) : Processed conn seq [] [] false
  | cancelled (seq : Nat) (arrivals : List Arrival) :
      Processed conn seq (.cancelled :: arrivals) [] true
  | frameError (seq : Nat) (arrivals : List Arrival) :
      Processed conn seq (.frameError :: arrivals) [] true
  | eof (seq : Nat) (arrivals : List Arrival) : Processed conn seq (.eof :: arrivals) [] true
  | tooLarge (seq : Nat) (arrivals : List Arrival) (h : conn.maxFrameSize < raw.length) :
      Processed conn seq (.frame raw :: arrivals) [] true
  | undecoded (hfits : raw.length ≤ conn.maxFrameSize)
      (h : decodePipeline conn.pipeline (seq + 1) raw = .error ()) :
      Processed conn seq (.frame raw :: arrivals) [] true
  | last (hfits : raw.length ≤ conn.maxFrameSize)
      (h : decodePipeline conn.pipeline (seq + 1) raw = .ok data)
      (hl : Handled conn (seq + 1) data l false) :
      Processed conn seq (.frame raw :: arrivals) [l] true
  | next (hfits : raw.length ≤ conn.maxFrameSize)
      (h : decodePipeline conn.pipeline (seq + 1) raw = .ok data)
      (hl : Handled conn (seq + 1) data l true)
      (hrest : Processed conn (seq + 1) arrivals logs ended) :
      Processed conn seq (.frame raw :: arrivals) (l :: logs) ended

-- ---------------------------------------------------------------------------
-- What a frame gets
-- ---------------------------------------------------------------------------

theorem lastReturned_cons (data : Bytes) {c : HookCall} (hpassed : passedOn c.result = some next)
    (hall : AllPassed log) :
    lastReturned data (c :: log) = lastReturned next log := by
  cases hlast : log.getLast? with
  | none =>
    obtain rfl := List.getLast?_eq_none_iff.mp hlast
    simp [lastReturned, hpassed]
  | some d =>
    obtain ⟨next', hnext⟩ := Option.isSome_iff_exists.mp (hall d (List.mem_of_getLast? hlast))
    simp [lastReturned, List.getLast?_cons, hlast, hnext]

@[simp] theorem allPassed_nil : AllPassed [] := List.forall_mem_nil _

theorem allPassed_cons :
    AllPassed (c :: log) ↔ (passedOn c.result).isSome ∧ AllPassed log := by
  simp [AllPassed]

theorem chained_nil : Chained hook [] data [] where
  order := List.nil_prefix
  results := List.forall_mem_nil _
  linked := trivial
  complete _ := rfl

theorem chained_stop (h : passedOn (hook mw data) = none) (i : Nat)
    (mws : List (TcpMiddleware × Nat)) :
    Chained hook ((mw, i) :: mws) data [⟨i, data, hook mw data⟩] where
  order := by simp
  results := by simp
  linked := ⟨rfl, .inl rfl⟩
  complete hall := by simp [allPassed_cons, h] at hall

theorem chained_pass (h : passedOn (hook mw data) = some next) (i : Nat)
    (hc : Chained hook mws next log) :
    Chained hook ((mw, i) :: mws) data (⟨i, data, hook mw data⟩ :: log) where
  order := by simpa using hc.order
  results := by
    simp only [List.forall_mem_cons]
    refine ⟨⟨mw, List.mem_cons_self, rfl⟩, fun c hmem => ?_⟩
    obtain ⟨mw', hmw, hresult⟩ := hc.results c hmem
    exact ⟨mw', List.mem_cons_of_mem _ hmw, hresult⟩
  linked := ⟨rfl, .inr ⟨next, h, hc.linked⟩⟩
  complete hall := by simpa using hc.complete (allPassed_cons.mp hall).2

theorem hookChain_none : hookChain hook call mws none = ([], none) := by cases mws <;> rfl

/-- A chain of hooks, by its log. -/
theorem hookChain_chained (hook : TcpMiddleware → Bytes → Except AppError (Option Bytes))
    (call : Nat → Bytes → Except AppError (Option Bytes) → Call)
    (mws : List (TcpMiddleware × Nat)) (data : Bytes) :
    ∃ log : List HookCall, Chained hook mws data log ∧ hookChain hook call mws (some data) =
      (log.map fun c => call c.place c.data c.result,
        if AllPassed log then some (lastReturned data log) else none) := by
  induction mws generalizing data with
  | nil => exact ⟨[], chained_nil, rfl⟩
  | cons m mws ih =>
    obtain ⟨mw, i⟩ := m
    cases hhook : hook mw data with
    | error e =>
      have hstop : passedOn (hook mw data) = none := by simp [hhook, passedOn]
      refine ⟨_, chained_stop hstop i mws, ?_⟩
      simp [hookChain, hhook, allPassed_cons, passedOn]
    | ok out =>
      cases out with
      | none =>
        have hstop : passedOn (hook mw data) = none := by simp [hhook, passedOn]
        refine ⟨_, chained_stop hstop i mws, ?_⟩
        simp [hookChain, hhook, hookChain_none, allPassed_cons, passedOn]
      | some next =>
        obtain ⟨log, hchained, hlog⟩ := ih next
        have hpass : passedOn (hook mw data) = some next := by simp [hhook, passedOn]
        refine ⟨_, chained_pass hpass i hchained, ?_⟩
        by_cases hall : AllPassed log
        · have hlast : lastReturned data (⟨i, data, hook mw data⟩ :: log) = _ :=
            lastReturned_cons data hpass hall
          simp [hookChain, hhook, hlog, allPassed_cons, passedOn, hall, ← hlast]
        · simp [hookChain, hhook, hlog, allPassed_cons, passedOn, hall]

/-- The replies that the encoder takes, and whether the socket does. -/
def sendsOf (conn : Connection) (seq : Nat) (handed : List Bytes) : List (Bytes × Bool) :=
  (handed.filterMap fun final => (encodePipeline conn.pipeline seq final).toOption).map
    fun out => (out, decide (out.length ≤ conn.maxFrameSize) && conn.writes seq)

theorem handleReply_log (conn : Connection) (seq : Nat) (reply : Bytes) :
    ∃ log : List HookCall,
      Chained (·.onOutbound seq) conn.middlewares.zipIdx.reverse reply log ∧
      let handed := if AllPassed log then [lastReturned reply log] else []
      (conn.handleReply seq reply).1 = log.map (fun c => .onOutbound c.place c.data c.result) ++
          (sendsOf conn seq handed).map (fun (out, sent) => .send out sent) ∧
      ((conn.handleReply seq reply).2 = true ↔
        (∀ final ∈ handed, (encodePipeline conn.pipeline seq final).toOption ≠ none) ∧
          ∀ s ∈ sendsOf conn seq handed, s.2 = true) := by
  obtain ⟨log, hchained, hlog⟩ := hookChain_chained (·.onOutbound seq) .onOutbound
    conn.middlewares.zipIdx.reverse reply
  refine ⟨log, hchained, ?_⟩
  simp only [Connection.handleReply, Connection.outboundChain, hlog]
  by_cases hall : AllPassed log
  · simp only [if_pos hall]
    cases henc : encodePipeline conn.pipeline seq (lastReturned reply log) with
    | error e => simp [sendsOf, henc, Except.toOption]
    | ok out => simp [sendsOf, henc, Except.toOption]
  · simp [hall, sendsOf]

theorem handled_without_reply
    (hchained : Chained (·.onInbound seq) conn.middlewares.zipIdx data log)
    (hmessages : messages =
      if AllPassed log then
        [⟨lastReturned data log, conn.handler.onMessage seq (lastReturned data log)⟩]
      else [])
    (hnone : ∀ c ∈ messages, passedOn c.result = none)
    (hgoes : goesOn = true ↔ ∀ c ∈ messages, isError c.result = false) :
    Handled conn seq data ⟨log, messages, [], []⟩ goesOn := by
  have hreplies : FrameLog.replies ⟨log, messages, [], []⟩ = [] :=
    List.filterMap_eq_nil_iff.mpr hnone
  have hhanded : FrameLog.handed ⟨log, messages, [], []⟩ = [] := by
    simp [FrameLog.handed, hreplies]
  exact {
    inbound := hchained
    messages := hmessages
    outbound := .inl ⟨hreplies, rfl⟩
    sends := by rw [hhanded]; rfl
    once := Nat.zero_le 1
    goesOn := by simpa [hhanded] using hgoes }

theorem handleFrame_handled (hdecode : decodePipeline conn.pipeline seq raw = .ok data) :
    ∃ l : FrameLog, (conn.handleFrame seq raw).1 = l.calls ∧
      Handled conn seq data l (conn.handleFrame seq raw).2 := by
  obtain ⟨log, hchained, hlog⟩ := hookChain_chained (·.onInbound seq) .onInbound
    conn.middlewares.zipIdx data
  simp only [Connection.handleFrame, hdecode, Connection.inboundChain, hlog]
  by_cases hall : AllPassed log
  · simp only [if_pos hall]
    cases hmsg : conn.handler.onMessage seq (lastReturned data log) with
    | error e =>
      refine ⟨⟨log, [⟨lastReturned data log, .error e⟩], [], []⟩, by simp [FrameLog.calls], ?_⟩
      exact handled_without_reply hchained (by simp [hall, hmsg]) (by simp [passedOn])
        (by simp [isError])
    | ok out =>
      cases out with
      | none =>
        refine ⟨⟨log, [⟨lastReturned data log, .ok none⟩], [], []⟩, by simp [FrameLog.calls], ?_⟩
        exact handled_without_reply hchained (by simp [hall, hmsg]) (by simp [passedOn])
          (by simp [isError])
      | some reply =>
        obtain ⟨outbound, hout, hcalls, hgoes⟩ := handleReply_log conn seq reply
        let handed := if AllPassed outbound then [lastReturned reply outbound] else []
        let l : FrameLog := ⟨log, [⟨lastReturned data log, .ok (some reply)⟩], outbound,
          sendsOf conn seq handed⟩
        have hreplies : l.replies = [reply] := by simp [l, FrameLog.replies, passedOn]
        have hhanded : l.handed = handed := by simp [FrameLog.handed, hreplies, l, handed]
        refine ⟨l, by simp [FrameLog.calls, hcalls, l, handed], ?_⟩
        exact {
          inbound := hchained
          messages := by simp [l, hall, hmsg]
          outbound := .inr ⟨reply, hreplies, hout⟩
          sends := by rw [hhanded]; rfl
          once := by
            have hlen : handed.length ≤ 1 := by
              by_cases hout : AllPassed outbound <;> simp [handed, hout]
            simpa [l, sendsOf] using (List.length_filterMap_le _ handed).trans hlen
          goesOn := by
            have hok : ∀ c ∈ l.messages, isError c.result = false := by simp [l, isError]
            rw [hhanded]
            exact hgoes.trans (and_iff_right hok).symm }
  · refine ⟨⟨log, [], [], []⟩, by simp [FrameLog.calls, hall], ?_⟩
    simp only [hall, if_false]
    exact handled_without_reply hchained (by simp [hall]) (List.forall_mem_nil _) (by simp)

theorem messageLoop_processed (conn : Connection) (seq : Nat) (arrivals : List Arrival) :
    ∃ logs : List FrameLog, (conn.messageLoop seq arrivals).1 = logs.flatMap FrameLog.calls ∧
      Processed conn seq arrivals logs (conn.messageLoop seq arrivals).2 := by
  induction arrivals generalizing seq with
  | nil => exact ⟨[], rfl, .waits seq⟩
  | cons a arrivals ih =>
    cases a with
    | cancelled => exact ⟨[], rfl, .cancelled seq arrivals⟩
    | frameError => exact ⟨[], rfl, .frameError seq arrivals⟩
    | eof => exact ⟨[], rfl, .eof seq arrivals⟩
    | frame raw =>
      by_cases hfits : raw.length ≤ conn.maxFrameSize
      · cases hdecode : decodePipeline conn.pipeline (seq + 1) raw with
        | error e =>
          refine ⟨[], ?_, ?_⟩
          · simp [Connection.messageLoop, hfits, Connection.handleFrame, hdecode]
          · simpa [Connection.messageLoop, hfits, Connection.handleFrame, hdecode] using
              Processed.undecoded hfits hdecode
        | ok data =>
          obtain ⟨l, hl, hhandled⟩ := handleFrame_handled hdecode
          simp only [Connection.messageLoop, if_pos hfits]
          rcases hframe : conn.handleFrame (seq + 1) raw with ⟨calls, goesOn⟩
          rw [hframe] at hl hhandled
          cases goesOn with
          | false => exact ⟨[l], by simpa using hl, .last hfits hdecode hhandled⟩
          | true =>
            obtain ⟨logs, hlogs, hrest⟩ := ih (seq + 1)
            refine ⟨l :: logs, ?_, .next hfits hdecode hhandled hrest⟩
            simpa [hlogs] using hl
      · refine ⟨[], by simp [Connection.messageLoop, hfits], ?_⟩
        simpa [Connection.messageLoop, hfits] using
          Processed.tooLarge seq arrivals (Nat.not_le.mp hfits)

-- ---------------------------------------------------------------------------
-- Every frame of every connection
-- ---------------------------------------------------------------------------

/-- Lower orders come first, and those of one order stay in the order of the list. -/
structure Ordered (mws sorted : List TcpMiddleware) : Prop where
  perm : sorted.Perm mws
  ascending : sorted.Pairwise fun a b => a.order ≤ b.order
  stable : ∀ order, sorted.filter (·.order = order) = mws.filter (·.order = order)

theorem mergeSort_ordered (mws : List TcpMiddleware) :
    Ordered mws (mws.mergeSort fun a b => a.order ≤ b.order) where
  perm := sortByKey_perm TcpMiddleware.order mws
  ascending := sortByKey_ascending TcpMiddleware.order mws
  stable := filter_sortByKey TcpMiddleware.order mws

theorem connectAll_onConnect (mws : List (TcpMiddleware × Nat)) :
    ∀ c ∈ (Connection.connectAll mws).1, ∃ component result, c = .onConnect component result := by
  induction mws with
  | nil => simp [Connection.connectAll]
  | cons m mws ih =>
    obtain ⟨mw, i⟩ := m
    cases h : mw.onConnect with
    | ok => simpa [Connection.connectAll, h] using ih
    | error e => simp [Connection.connectAll, h]

/-- Whatever the components answer and whatever arrives on a connection that the
`on_connect` hooks accept: the middlewares are in order, and what is done before
the `on_disconnect` hooks is what the frames are due, one after the other, up to
the first after which the loop does not go on. -/
theorem frames_handled (server : TcpServer) (mws : List TcpMiddleware) (writes : Nat → Bool)
    (arrivals : List Arrival) (hmws : ∀ mw ∈ mws, mw.onConnect = .ok ())
    (hhandler : server.handler.onConnect = .ok ()) :
    let conn := (server.withMiddlewares mws).serve writes
    let task := conn.handleTcpConnection arrivals
    Ordered mws conn.middlewares ∧ ∃ before logs after,
      task.calls = before ++ logs.flatMap FrameLog.calls ++ after ∧
      (∀ c ∈ before, ∃ component result, c = .onConnect component result) ∧
      (∀ c ∈ after, ∃ component, c = .onDisconnect component) ∧
      Processed conn 0 arrivals logs task.ended := by
  intro conn task
  have hordered : Ordered mws conn.middlewares := mergeSort_ordered mws
  refine ⟨hordered, ?_⟩
  have hall : (Connection.connectAll conn.middlewares.zipIdx).2 = true := by
    rw [connectAll_snd, all_zipIdx_accepts, List.all_eq_true]
    exact fun mw hmem => accepts_iff.mpr (hmws mw (hordered.perm.mem_iff.mp hmem))
  have hbefore := connectAll_onConnect conn.middlewares.zipIdx
  obtain ⟨logs, hlogs, hprocessed⟩ := messageLoop_processed conn 0 arrivals
  rcases hconnect : Connection.connectAll conn.middlewares.zipIdx with ⟨calls, accepted⟩
  rw [hconnect] at hall hbefore
  obtain rfl : accepted = true := hall
  have hok : conn.handler.onConnect = .ok () := hhandler
  have hcalls : ∀ c ∈ calls ++ [.onConnect .handler conn.handler.onConnect],
      ∃ component result, c = .onConnect component result := by
    intro c hc
    rcases List.mem_append.mp hc with hc | hc
    · exact hbefore c hc
    · exact ⟨_, _, List.mem_singleton.mp hc⟩
  rcases hloop : conn.messageLoop 0 arrivals with ⟨loop, ended⟩
  rw [hloop] at hlogs hprocessed
  obtain rfl : loop = logs.flatMap FrameLog.calls := hlogs
  cases ended with
  | false =>
    refine ⟨_, logs, [], ?_, hcalls, List.forall_mem_nil _, ?_⟩
    · simp [task, Connection.handleTcpConnection, hconnect, hok, hloop]
    · simpa [task, Connection.handleTcpConnection, hconnect, hok, hloop] using hprocessed
  | true =>
    refine ⟨_, logs, (conn.middlewares.zipIdx.reverse.map fun m =>
      Call.onDisconnect (.middleware m.2)) ++ [.onDisconnect .handler], ?_, hcalls, ?_, ?_⟩
    · simp [task, Connection.handleTcpConnection, hconnect, hok, hloop]
    · simp only [List.mem_append, List.mem_map, List.mem_singleton]
      rintro c (⟨m, -, rfl⟩ | rfl) <;> exact ⟨_, rfl⟩
    · simpa [task, Connection.handleTcpConnection, hconnect, hok, hloop] using hprocessed

def dropZero : TcpMiddleware where
  name := "drop-zero"
  order := 20
  onConnect := .ok ()
  onInbound _ data := .ok (if data.head? = some 0 then none else some data)
  onOutbound _ data := .ok (some data)

/-- The list has the later hook first; a frame is dropped, and the one after it
is answered. -/
theorem frames_handled_dropped :
    let mws := [dropZero, passing "log" 10 (.ok ())]
    let conn := ((TcpServer.new echo).withMiddlewares mws).serve fun _ => true
    let task := conn.handleTcpConnection [.frame [0], .frame [1], .eof]
    Ordered mws conn.middlewares ∧ ∃ before logs after,
      task.calls = before ++ logs.flatMap FrameLog.calls ++ after ∧
      (∀ c ∈ before, ∃ component result, c = .onConnect component result) ∧
      (∀ c ∈ after, ∃ component, c = .onDisconnect component) ∧
      Processed conn 0 [.frame [0], .frame [1], .eof] logs task.ended :=
  frames_handled (TcpServer.new echo) _ (fun _ => true) _ (by simp [dropZero, passing]) rfl

end Rinfra.Net
