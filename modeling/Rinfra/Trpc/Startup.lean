import Mathlib.Logic.Function.Basic
import Rinfra.Trpc.Servers

/-!
# The start of tRPC listeners

The builder collects services under the name of their listener. `run` takes them out
when it starts a listener of that name and registers them with its handler through
`blocking_write`, which panics within an asynchronous execution context, and `run` is
polled in one.

In a context that may block the services are registered; but they are there for the
first listener of the name only.
-/

namespace Rinfra.Trpc

inductive ListenerProtocol
  | http | tcp | grpc | trpc
  deriving DecidableEq, Repr

/-- The limit is that of the `tcp` options, if there are any. -/
structure ListenerConfig where
  name : String
  protocol : ListenerProtocol
  bind : String
  maxFrameSize : Option Nat
  deriving DecidableEq, Repr

abbrev ServiceHandlerFn := Nat → Bytes → Except AppError Bytes

abbrev TrpcServiceEntry := String × ServiceHandlerFn

inductive Context
  | blocking
  | async
  deriving DecidableEq, Repr

/-- `blocking_write` on a lock that is free; `none` is a panic. -/
def blockingWrite {α : Type} (ctx : Context) (value : α) (f : α → α) : Option α :=
  match ctx with
  | .blocking => some (f value)
  | .async => none

-- ---------------------------------------------------------------------------
-- Handlers
-- ---------------------------------------------------------------------------

structure TrpcHandler where
  services : Services

namespace TrpcHandler

def new : TrpcHandler := ⟨fun _ => none⟩

/-- It waits for the lock. -/
def register (handler : TrpcHandler) (name : String) (fn : ServiceHandlerFn) : TrpcHandler :=
  ⟨Function.update handler.services name (some fn)⟩

def registerRaw (ctx : Context) (handler : TrpcHandler) (name : String) (fn : ServiceHandlerFn) :
    Option TrpcHandler :=
  (blockingWrite ctx handler.services fun services =>
    Function.update services name (some fn)).map TrpcHandler.mk

def registerEntries (ctx : Context) : TrpcHandler → List TrpcServiceEntry → Option TrpcHandler
  | handler, [] => some handler
  | handler, (name, svcFn) :: entries =>
    match handler.registerRaw ctx name svcFn with
    | none => none
    | some handler => handler.registerEntries ctx entries

end TrpcHandler

-- ---------------------------------------------------------------------------
-- The application
-- ---------------------------------------------------------------------------

structure Registration where
  listener : String
  name : String
  handler : ServiceHandlerFn

structure Application where
  listeners : List ListenerConfig
  trpcServices : String → Option (List TrpcServiceEntry)

/-- A tRPC server whose task has been spawned. -/
structure TrpcListener where
  bind : String
  name : String
  handler : TrpcHandler
  maxFrameSize : Nat

/-- How `run` has ended, or that it waits for the shutdown, with the tRPC servers it has
started. -/
inductive Run
  | failed (e : AppError)
  | panicked
  | waiting (started : List TrpcListener)

def trpcService (services : String → Option (List TrpcServiceEntry)) (call : Registration) :
    String → Option (List TrpcServiceEntry) :=
  Function.update services call.listener
    (some ((services call.listener).getD [] ++ [(call.name, call.handler)]))

def startTrpcListener (ctx : Context) (services : String → Option (List TrpcServiceEntry))
    (listener : ListenerConfig) :
    Option (TrpcListener × (String → Option (List TrpcServiceEntry))) :=
  let entries := (services listener.name).getD []
  let services := Function.update services listener.name none
  match TrpcHandler.registerEntries ctx .new entries with
  | none => none
  | some handler =>
    let maxFrameSize := listener.maxFrameSize.getD defaultMaxFrameSize
    some (⟨listener.bind, listener.name, handler, maxFrameSize⟩, services)

/-- The listeners of the other protocols take none of the services. -/
def startListeners (ctx : Context) :
    (String → Option (List TrpcServiceEntry)) → List ListenerConfig → Option (List TrpcListener)
  | _, [] => some []
  | services, listener :: listeners =>
    match listener.protocol with
    | .http | .tcp | .grpc => startListeners ctx services listeners
    | .trpc =>
      match startTrpcListener ctx services listener with
      | none => none
      | some (server, services) => (startListeners ctx services listeners).map (server :: ·)

namespace Application

def build (listeners : List ListenerConfig) (calls : List Registration) : Application :=
  ⟨listeners, calls.foldl trpcService fun _ => none⟩

/-- What comes before the listeners, the cluster and the plugins, is given by its
result. -/
def runIn (ctx : Context) (setup : Except AppError Unit) (app : Application) : Run :=
  match setup with
  | .error e => .failed e
  | .ok () =>
    match startListeners ctx app.trpcServices app.listeners with
    | none => .panicked
    | some started => .waiting started

/-- `run` is an `async fn`. -/
def run (setup : Except AppError Unit) (app : Application) : Run := app.runIn .async setup

end Application

-- ---------------------------------------------------------------------------
-- What is to be served
-- ---------------------------------------------------------------------------

def servicesOf (calls : List Registration) (listener : String) : List TrpcServiceEntry :=
  (calls.filter (·.listener = listener)).map fun call => (call.name, call.handler)

/-- Every name goes to the last function registered under it. -/
structure Serves (calls : List Registration) (listener : ListenerConfig) (server : TrpcListener) :
    Prop where
  bind : server.bind = listener.bind
  name : server.name = listener.name
  services : ∀ name, server.handler.services name =
    (servicesOf calls listener.name).reverse.lookup name

def trpcListeners (listeners : List ListenerConfig) : List ListenerConfig :=
  listeners.filter (·.protocol = .trpc)

/-- If `run` gets to its listeners, each tRPC listener is started and serves what is
registered for it. -/
def Run.Served (listeners : List ListenerConfig) (calls : List Registration) : Run → Prop
  | .failed _ => True
  | .panicked => False
  | .waiting started => List.Forall₂ (Serves calls) (trpcListeners listeners) started

/-- What listeners of these names have been started with is gone. -/
def Remaining (calls : List Registration) (taken : List String)
    (services : String → Option (List TrpcServiceEntry)) : Prop :=
  ∀ listener, (services listener).getD [] =
    if listener ∈ taken then [] else servicesOf calls listener

/-- In an asynchronous context nothing may be registered; in one that may block,
nothing for a listener whose name another has had before. -/
def Startable (calls : List Registration) :
    Context → (taken : List String) → List ListenerConfig → Prop
  | .async, _, listeners => ∀ listener ∈ listeners, servicesOf calls listener.name = []
  | .blocking, taken, listeners =>
    (∀ listener ∈ listeners, listener.name ∈ taken → servicesOf calls listener.name = []) ∧
      listeners.Pairwise fun first listener =>
        listener.name = first.name → servicesOf calls listener.name = []

-- ---------------------------------------------------------------------------
-- One listener
-- ---------------------------------------------------------------------------

section
variable {ctx : Context} {calls : List Registration} {taken : List String}
  {services : String → Option (List TrpcServiceEntry)} {listener : ListenerConfig}

theorem registerRaw_blocking (handler : TrpcHandler) (name : String) (fn : ServiceHandlerFn) :
    handler.registerRaw .blocking name fn = some (handler.register name fn) := rfl

theorem registerEntries_blocking (handler : TrpcHandler) (entries : List TrpcServiceEntry) :
    handler.registerEntries .blocking entries =
      some ⟨fun name => (entries.reverse.lookup name).or (handler.services name)⟩ := by
  induction entries generalizing handler with
  | nil => rfl
  | cons entry entries ih =>
    obtain ⟨name, svcFn⟩ := entry
    rw [TrpcHandler.registerEntries, registerRaw_blocking]
    dsimp only
    rw [ih]
    congr 2
    funext other
    rw [List.reverse_cons, List.lookup_append, Option.or_assoc]
    congr 1
    by_cases hname : other = name
    · simp [TrpcHandler.register, hname]
    · have hbeq : (other == name) = false := beq_false_of_ne hname
      simp [TrpcHandler.register, List.lookup_cons, hname, hbeq]

theorem registerEntries_new {entries : List TrpcServiceEntry}
    (h : ctx = .blocking ∨ entries = []) :
    TrpcHandler.registerEntries ctx .new entries =
      some ⟨fun name => entries.reverse.lookup name⟩ := by
  rcases h with rfl | rfl
  · simp only [registerEntries_blocking, TrpcHandler.new, Option.or_none]
  · rfl

theorem registerEntries_async (handler : TrpcHandler) {entries : List TrpcServiceEntry}
    (h : entries ≠ []) : handler.registerEntries .async entries = none := by
  cases entries with
  | nil => exact absurd rfl h
  | cons entry entries => rfl

theorem lookup_eq_none_iff {entries : List TrpcServiceEntry} :
    (∀ name, entries.lookup name = none) ↔ entries = [] := by
  constructor
  · intro h
    cases entries with
    | nil => rfl
    | cons entry entries =>
      have hfound := h entry.1
      rw [List.lookup_cons, beq_self_eq_true] at hfound
      cases hfound
  · rintro rfl name
    rfl

theorem Remaining.take (h : Remaining calls taken services) (name : String) :
    Remaining calls (name :: taken) (Function.update services name none) := by
  intro other
  by_cases hname : other = name
  · simp [hname]
  · rw [Function.update_of_ne hname, h other]
    simp [hname]

theorem startTrpcListener_some (h : Remaining calls taken services)
    (hctx : ctx = .blocking ∨ (services listener.name).getD [] = []) :
    ∃ server services', startTrpcListener ctx services listener = some (server, services') ∧
      Remaining calls (listener.name :: taken) services' ∧
      (Serves calls listener server ↔
        (listener.name ∈ taken → servicesOf calls listener.name = [])) := by
  have hstart : startTrpcListener ctx services listener =
      some (⟨listener.bind, listener.name,
        ⟨fun name => ((services listener.name).getD []).reverse.lookup name⟩,
        listener.maxFrameSize.getD defaultMaxFrameSize⟩,
        Function.update services listener.name none) := by
    simp only [startTrpcListener, registerEntries_new hctx]
  refine ⟨_, _, hstart, h.take listener.name, fun hs htaken => ?_, fun hleft => ?_⟩
  · have hnone := hs.services
    simp only [h listener.name, if_pos htaken] at hnone
    exact List.reverse_eq_nil_iff.mp (lookup_eq_none_iff.mp fun name => (hnone name).symm)
  · refine ⟨rfl, rfl, fun name => ?_⟩
    simp only [h listener.name]
    split
    · rename_i htaken
      rw [hleft htaken]
    · rfl

theorem startTrpcListener_none (hentries : (services listener.name).getD [] ≠ []) :
    startTrpcListener .async services listener = none := by
  rw [startTrpcListener, registerEntries_async _ hentries]

-- ---------------------------------------------------------------------------
-- All listeners
-- ---------------------------------------------------------------------------

theorem startable_cons {listeners : List ListenerConfig} :
    Startable calls ctx taken (listener :: listeners) ↔
      (listener.name ∈ taken ∨ ctx = .async → servicesOf calls listener.name = []) ∧
        Startable calls ctx (listener.name :: taken) listeners := by
  cases ctx with
  | async => simp [Startable]
  | blocking =>
    simp only [Startable, List.pairwise_cons, List.mem_cons, or_imp, forall_and, forall_eq]
    constructor
    · rintro ⟨⟨hhead, htail⟩, hsame, hpairs⟩
      exact ⟨⟨hhead, by simp⟩, ⟨hsame, htail⟩, hpairs⟩
    · rintro ⟨⟨hhead, -⟩, ⟨hsame, htail⟩, hpairs⟩
      exact ⟨⟨hhead, htail⟩, hsame, hpairs⟩

theorem startListeners_iff (h : Remaining calls taken services) (listeners : List ListenerConfig) :
    (∃ started, startListeners ctx services listeners = some started ∧
      List.Forall₂ (Serves calls) (trpcListeners listeners) started) ↔
      Startable calls ctx taken (trpcListeners listeners) := by
  induction listeners generalizing taken services with
  | nil => cases ctx <;> simp [startListeners, trpcListeners, Startable]
  | cons listener listeners ih =>
    cases hprotocol : listener.protocol with
    | trpc =>
      have hfilter : trpcListeners (listener :: listeners) = listener :: trpcListeners listeners :=
        List.filter_cons_of_pos (by simp [hprotocol])
      rw [hfilter, startable_cons]
      by_cases hctx : ctx = .blocking ∨ (services listener.name).getD [] = []
      · obtain ⟨server, services', hstart, hleft, hserves⟩ := startTrpcListener_some h hctx
        have hhead : Serves calls listener server ↔
            (listener.name ∈ taken ∨ ctx = .async → servicesOf calls listener.name = []) := by
          rw [hserves, or_imp]
          refine iff_self_and.mpr fun hfree hasync => ?_
          by_cases htaken : listener.name ∈ taken
          · exact hfree htaken
          · have hnone := hctx.resolve_left (by simp [hasync])
            rwa [h, if_neg htaken] at hnone
        rw [← hhead, ← ih hleft]
        simp only [startListeners, hprotocol, hstart, Option.map_eq_some_iff]
        constructor
        · rintro ⟨started, ⟨rest, hrest, rfl⟩, hall⟩
          obtain ⟨hfirst, hothers⟩ := List.forall₂_cons.mp hall
          exact ⟨hfirst, rest, hrest, hothers⟩
        · rintro ⟨hfirst, rest, hrest, hothers⟩
          exact ⟨server :: rest, ⟨rest, hrest, rfl⟩, .cons hfirst hothers⟩
      · obtain ⟨hasync, hentries⟩ := not_or.mp hctx
        have hasync : ctx = .async := by cases ctx <;> simp_all
        subst hasync
        have hnone := startTrpcListener_none hentries
        refine iff_of_false ?_ fun hall => ?_
        · rintro ⟨started, hstarted, -⟩
          simp [startListeners, hprotocol, hnone] at hstarted
        · rw [h] at hentries
          split at hentries
          · exact hentries rfl
          · exact hentries (hall.1 (.inr rfl))
    | http | tcp | grpc =>
      have hfilter : trpcListeners (listener :: listeners) = trpcListeners listeners :=
        List.filter_cons_of_neg (by simp [hprotocol])
      simp only [hfilter, startListeners, hprotocol]
      exact ih h

theorem remaining_build (calls : List Registration) :
    Remaining calls [] (calls.foldl trpcService fun _ => none) := by
  have hfold (services : String → Option (List TrpcServiceEntry)) (listener : String) :
      ((calls.foldl trpcService services) listener).getD [] =
        (services listener).getD [] ++ servicesOf calls listener := by
    induction calls generalizing services with
    | nil => simp [servicesOf]
    | cons call calls ih =>
      rw [List.foldl_cons, ih, trpcService]
      by_cases hname : call.listener = listener
      · simp [servicesOf, hname]
      · simp [servicesOf, hname, Function.update_of_ne (Ne.symm hname)]
  intro listener
  simpa using hfold (fun _ => none) listener

/-- When the tRPC listeners are served, in either kind of context. -/
theorem runIn_served_iff (ctx : Context) (setup : Except AppError Unit)
    (listeners : List ListenerConfig) (calls : List Registration) :
    ((Application.build listeners calls).runIn ctx setup).Served listeners calls ↔
      (∃ e, setup = .error e) ∨ Startable calls ctx [] (trpcListeners listeners) := by
  cases setup with
  | error e => exact iff_of_true trivial (.inl ⟨e, rfl⟩)
  | ok =>
    have hiff := @startListeners_iff ctx calls [] _ (remaining_build calls) listeners
    simp only [reduceCtorEq, exists_false, false_or, ← hiff, Application.runIn, Application.build]
    cases startListeners ctx (calls.foldl trpcService fun _ => none) listeners with
    | none => simp [Run.Served]
    | some started => simp [Run.Served]

end

/-- `run` starts its tRPC listeners and they serve what is registered for them exactly
where nothing is, unless it does not get to them. -/
theorem run_served_iff (setup : Except AppError Unit) (listeners : List ListenerConfig)
    (calls : List Registration) :
    ((Application.build listeners calls).run setup).Served listeners calls ↔
      (∃ e, setup = .error e) ∨
        ∀ listener ∈ listeners, listener.protocol = .trpc →
          ∀ call ∈ calls, call.listener ≠ listener.name := by
  rw [Application.run, runIn_served_iff]
  simp [Startable, trpcListeners, servicesOf]

/-- One listener with one service. -/
theorem run_panics :
    let listener : ListenerConfig := ⟨"rpc", .trpc, "127.0.0.1:9000", none⟩
    let call : Registration := ⟨"rpc", "echo", fun _ payload => .ok payload⟩
    (Application.build [listener] [call]).run (.ok ()) = .panicked ∧
      ¬ ((Application.build [listener] [call]).run (.ok ())).Served [listener] [call] :=
  ⟨rfl, id⟩

end Rinfra.Trpc
