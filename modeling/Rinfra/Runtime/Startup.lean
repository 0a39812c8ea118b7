import Rinfra.Trpc.Startup

/-!
# Which listener serves what

The builder keeps what it is given under the names of listeners, and plugins add
routers of their own. `run` goes through the listeners of the configuration and
takes from these maps what is there under each one's name, so that what a
listener serves depends on those before it. `serves` says it of one listener by
itself.
-/

namespace Rinfra.Runtime

open Trpc (ListenerProtocol ServiceHandlerFn TrpcHandler TrpcServiceEntry defaultMaxFrameSize)

structure HttpListenerOptions where
  wsEnabled : Bool
  deriving DecidableEq, Repr

structure TcpListenerOptions where
  maxFrameSize : Nat
  pipeline : List String
  deriving DecidableEq, Repr

structure ListenerConfig where
  name : String
  protocol : ListenerProtocol
  http : Option HttpListenerOptions
  tcp : Option TcpListenerOptions
  deriving DecidableEq, Repr

def ListenerConfig.httpOpts (listener : ListenerConfig) : HttpListenerOptions :=
  listener.http.getD ⟨false⟩

def ListenerConfig.tcpOpts (listener : ListenerConfig) : TcpListenerOptions :=
  listener.tcp.getD ⟨defaultMaxFrameSize, []⟩

inductive Call (Router Ws Tcp Grpc : Type)
  | httpRouter (listener : String) (router : Router)
  | wsHandler (listener : String) (handler : Ws)
  | tcpHandler (listener : String) (handler : Tcp)
  | grpcService (listener : String) (service : Grpc)
  | trpcService (listener name : String) (handler : ServiceHandlerFn)

/-- An absent entry and an empty list are taken alike. -/
structure Application (Router Ws Tcp Grpc : Type) where
  httpRouters : String → List Router
  wsHandlers : String → Option Ws
  tcpHandlers : String → Option Tcp
  grpcServices : String → List Grpc
  trpcServices : String → List TrpcServiceEntry

inductive Started (Router Tcp Grpc Transform : Type)
  /-- What is merged beside the health route that every server has. -/
  | http (name : String) (router : Option Router)
  | tcp (name : String) (handler : Tcp) (pipeline : List Transform) (maxFrameSize : Nat)
  | grpc (name : String) (services : List Grpc)
  | trpc (name : String) (handler : TrpcHandler) (maxFrameSize : Nat)
  /-- It has no handler, or a transform it names is missing. -/
  | skipped (name : String)

def pluginKey : String := "__plugin__"

section
variable {Router Ws Tcp Grpc Transform : Type}

namespace Application

def empty : Application Router Ws Tcp Grpc where
  httpRouters _ := []
  wsHandlers _ := none
  tcpHandlers _ := none
  grpcServices _ := []
  trpcServices _ := []

/-- Routers and services are appended; of two handlers the later stays. -/
def accept (app : Application Router Ws Tcp Grpc) :
    Call Router Ws Tcp Grpc → Application Router Ws Tcp Grpc
  | .httpRouter listener router => { app with
      httpRouters := Function.update app.httpRouters listener
        (app.httpRouters listener ++ [router]) }
  | .wsHandler listener handler => { app with
      wsHandlers := Function.update app.wsHandlers listener (some handler) }
  | .tcpHandler listener handler => { app with
      tcpHandlers := Function.update app.tcpHandlers listener (some handler) }
  | .grpcService listener service => { app with
      grpcServices := Function.update app.grpcServices listener
        (app.grpcServices listener ++ [service]) }
  | .trpcService listener name handler => { app with
      trpcServices := Function.update app.trpcServices listener
        (app.trpcServices listener ++ [(name, handler)]) }

/-- The loop of `build_with_plugins` over the routers of the plugins. -/
def withPluginRouters (app : Application Router Ws Tcp Grpc) (routers : List Router) :
    Application Router Ws Tcp Grpc :=
  { app with
    httpRouters :=
      Function.update app.httpRouters pluginKey (app.httpRouters pluginKey ++ routers) }

end Application

-- ---------------------------------------------------------------------------
-- Starting listeners
-- ---------------------------------------------------------------------------

/-- `merge` panics where two routers have a route in common. -/
structure Libraries (Router Ws Transform : Type) where
  merge : Router → Router → Option Router
  wsRouter : Ws → Router
  healthRouter : Router
  transforms : String → Option Transform

variable (lib : Libraries Router Ws Transform) (healthEnabled : Bool)

def mergeInto : Option Router → List Router → Option (Option Router)
  | merged, [] => some merged
  | none, r :: rs => mergeInto (some r) rs
  | some existing, r :: rs => (lib.merge existing r).bind fun merged => mergeInto (some merged) rs

def startHttpListener (app : Application Router Ws Tcp Grpc) (listener : ListenerConfig) :
    Option (Started Router Tcp Grpc Transform × Application Router Ws Tcp Grpc) := do
  let routerFns := app.httpRouters listener.name
  let app := { app with httpRouters := Function.update app.httpRouters listener.name [] }
  let pluginRouters := app.httpRouters pluginKey
  let app := { app with httpRouters := Function.update app.httpRouters pluginKey [] }
  let merged ← mergeInto lib none pluginRouters
  let merged ← mergeInto lib merged routerFns
  let merged ← mergeInto lib merged (if healthEnabled then [lib.healthRouter] else [])
  let wsHandler := app.wsHandlers listener.name
  let app := { app with wsHandlers := Function.update app.wsHandlers listener.name none }
  let wsRouters := match wsHandler with
    -- without `ws.enabled` there is a warning only
    | some handler => if listener.httpOpts.wsEnabled then [lib.wsRouter handler] else []
    | none => []
  let merged ← mergeInto lib merged wsRouters
  pure (.http listener.name merged, app)

def startTcpListener (app : Application Router Ws Tcp Grpc) (listener : ListenerConfig) :
    Started Router Tcp Grpc Transform × Application Router Ws Tcp Grpc :=
  match app.tcpHandlers listener.name with
  | none => (.skipped listener.name, app)
  | some handler =>
    let app := { app with tcpHandlers := Function.update app.tcpHandlers listener.name none }
    match listener.tcpOpts.pipeline.mapM lib.transforms with
    | none => (.skipped listener.name, app)
    | some pipeline => (.tcp listener.name handler pipeline listener.tcpOpts.maxFrameSize, app)

def startGrpcListener (app : Application Router Ws Tcp Grpc) (listener : ListenerConfig) :
    Started Router Tcp Grpc Transform × Application Router Ws Tcp Grpc :=
  (.grpc listener.name (app.grpcServices listener.name),
    { app with grpcServices := Function.update app.grpcServices listener.name [] })

/-- The handler registers under a lock that an asynchronous context may not wait
for. -/
def startTrpcListener (app : Application Router Ws Tcp Grpc) (listener : ListenerConfig) :
    Option (Started Router Tcp Grpc Transform × Application Router Ws Tcp Grpc) :=
  (TrpcHandler.registerEntries .async .new (app.trpcServices listener.name)).map fun handler =>
    (.trpc listener.name handler listener.tcpOpts.maxFrameSize,
      { app with trpcServices := Function.update app.trpcServices listener.name [] })

def startListener (app : Application Router Ws Tcp Grpc) (listener : ListenerConfig) :
    Option (Started Router Tcp Grpc Transform × Application Router Ws Tcp Grpc) :=
  match listener.protocol with
  | .http => startHttpListener lib healthEnabled app listener
  | .tcp => some (startTcpListener lib app listener)
  | .grpc => some (startGrpcListener app listener)
  | .trpc => startTrpcListener app listener

/-- The loop of `run`, or `none` if it panics. -/
def startListeners : Application Router Ws Tcp Grpc → List ListenerConfig →
    Option (List (Started Router Tcp Grpc Transform))
  | _, [] => some []
  | app, listener :: listeners => do
    let (started, app) ← startListener lib healthEnabled app listener
    let rest ← startListeners app listeners
    pure (started :: rest)

/-- From the calls of the builder on. -/
def run (calls : List (Call Router Ws Tcp Grpc)) (pluginRouters : List Router)
    (listeners : List ListenerConfig) : Option (List (Started Router Tcp Grpc Transform)) :=
  startListeners lib healthEnabled
    ((calls.foldl Application.accept .empty).withPluginRouters pluginRouters) listeners

-- ---------------------------------------------------------------------------
-- What one listener serves
-- ---------------------------------------------------------------------------

namespace Call

def httpRouter? : Call Router Ws Tcp Grpc → Option (String × Router)
  | .httpRouter listener router => some (listener, router)
  | _ => none

def wsHandler? : Call Router Ws Tcp Grpc → Option (String × Ws)
  | .wsHandler listener handler => some (listener, handler)
  | _ => none

def tcpHandler? : Call Router Ws Tcp Grpc → Option (String × Tcp)
  | .tcpHandler listener handler => some (listener, handler)
  | _ => none

def grpcService? : Call Router Ws Tcp Grpc → Option (String × Grpc)
  | .grpcService listener service => some (listener, service)
  | _ => none

def trpcService? : Call Router Ws Tcp Grpc → Option (String × TrpcServiceEntry)
  | .trpcService listener name handler => some (listener, name, handler)
  | _ => none

end Call

section
variable (calls : List (Call Router Ws Tcp Grpc)) (pluginRouters : List Router)

def broughtFor {α : Type} (kind : Call Router Ws Tcp Grpc → Option (String × α)) (name : String) :
    List α :=
  calls.filterMap fun call => (kind call).bind fun (listener, value) =>
    if listener = name then some value else none

def routersFor (name : String) : List Router :=
  broughtFor calls Call.httpRouter? name ++ if name = pluginKey then pluginRouters else []

def wsHandlerFor (name : String) : Option Ws := (broughtFor calls Call.wsHandler? name).getLast?

def tcpHandlerFor (name : String) : Option Tcp := (broughtFor calls Call.tcpHandler? name).getLast?

def grpcServicesFor (name : String) : List Grpc := broughtFor calls Call.grpcService? name

def trpcServicesFor (name : String) : List TrpcServiceEntry :=
  broughtFor calls Call.trpcService? name

def claimed (earlier : List ListenerConfig) (protocol : ListenerProtocol) (name : String) : Bool :=
  earlier.any fun l => l.protocol = protocol ∧ l.name = name

/-- The first HTTP listener has what plugins and the key of the plugins bring. -/
def pluginsClaimed (earlier : List ListenerConfig) : Bool :=
  earlier.any fun l => l.protocol = .http

/-- What a listener serves, from its own configuration and which names were taken
before it. -/
def serves (earlier : List ListenerConfig) (listener : ListenerConfig) :
    Option (Started Router Tcp Grpc Transform) :=
  let name := listener.name
  let mine := !claimed earlier listener.protocol name
  match listener.protocol with
  | .http =>
    let plugins := if pluginsClaimed earlier then [] else routersFor calls pluginRouters pluginKey
    let own := if mine && name ≠ pluginKey then routersFor calls pluginRouters name else []
    let health := if healthEnabled then [lib.healthRouter] else []
    let ws := if mine && listener.httpOpts.wsEnabled then
        (wsHandlerFor calls name).toList.map lib.wsRouter
      else []
    (mergeInto lib none (plugins ++ own ++ health ++ ws)).map (.http name)
  | .tcp =>
    some <| match if mine then tcpHandlerFor calls name else none,
        listener.tcpOpts.pipeline.mapM lib.transforms with
      | some handler, some pipeline => .tcp name handler pipeline listener.tcpOpts.maxFrameSize
      | _, _ => .skipped name
  | .grpc => some (.grpc name (if mine then grpcServicesFor calls name else []))
  | .trpc =>
    (TrpcHandler.registerEntries .async .new (if mine then trpcServicesFor calls name else [])).map
      fun handler => .trpc name handler listener.tcpOpts.maxFrameSize

/-- Each listener by itself, with those before it. -/
def servesAll : List ListenerConfig → List ListenerConfig →
    Option (List (Started Router Tcp Grpc Transform))
  | _, [] => some []
  | earlier, listener :: listeners => do
    let started ← serves lib healthEnabled calls pluginRouters earlier listener
    let rest ← servesAll (earlier ++ [listener]) listeners
    pure (started :: rest)

-- ---------------------------------------------------------------------------
-- What is left in the maps
-- ---------------------------------------------------------------------------

/-- What is not taken is there, and nothing else. -/
def Left {α : Type} (there all : String → α) (gone : α) (taken : String → Bool) : Prop :=
  ∀ name, there name = if taken name then gone else all name

theorem Left.take {α : Type} {there all : String → α} {gone : α} {taken : String → Bool}
    (h : Left there all gone taken) (name : String) :
    Left (Function.update there name gone) all gone fun n => taken n || n = name := by
  intro n
  by_cases hn : n = name
  · subst hn
    simp
  · rw [Function.update_of_ne hn, h n]
    simp [hn]

theorem Left.congr {α : Type} {there all : String → α} {gone : α} {taken taken' : String → Bool}
    (h : Left there all gone taken) (heq : ∀ name, taken' name = taken name) :
    Left there all gone taken' := by
  intro n
  rw [h n, heq]

structure Remaining (app : Application Router Ws Tcp Grpc) (earlier : List ListenerConfig) :
    Prop where
  http : Left app.httpRouters (routersFor calls pluginRouters) [] fun name =>
    claimed earlier .http name || (name = pluginKey && pluginsClaimed earlier)
  ws : Left app.wsHandlers (wsHandlerFor calls) none (claimed earlier .http)
  tcp : Left app.tcpHandlers (tcpHandlerFor calls) none (claimed earlier .tcp)
  grpc : Left app.grpcServices (grpcServicesFor calls) [] (claimed earlier .grpc)
  trpc : Left app.trpcServices (trpcServicesFor calls) [] (claimed earlier .trpc)

theorem claimed_concat (earlier : List ListenerConfig) (listener : ListenerConfig)
    (protocol : ListenerProtocol) (name : String) :
    claimed (earlier ++ [listener]) protocol name =
      (claimed earlier protocol name || (listener.protocol = protocol ∧ listener.name = name)) := by
  simp [claimed]

theorem mergeInto_append (merged : Option Router) (rs rs' : List Router) :
    mergeInto lib merged (rs ++ rs') =
      (mergeInto lib merged rs).bind fun merged => mergeInto lib merged rs' := by
  induction rs generalizing merged with
  | nil => rfl
  | cons r rs ih =>
    cases merged with
    | none => exact ih _
    | some existing =>
      rw [List.cons_append, mergeInto, mergeInto]
      cases lib.merge existing r with
      | none => rfl
      | some merged => exact ih _

theorem pluginsClaimed_of_claimed {earlier : List ListenerConfig} {name : String}
    (h : claimed earlier .http name = true) : pluginsClaimed earlier = true := by
  simp only [claimed, pluginsClaimed, List.any_eq_true, decide_eq_true_eq] at h ⊢
  obtain ⟨l, hl, hprotocol, -⟩ := h
  exact ⟨l, hl, hprotocol⟩

theorem foldl_appends {α : Type} (kind : Call Router Ws Tcp Grpc → Option (String × α))
    (get : Application Router Ws Tcp Grpc → String → List α)
    (hget : ∀ app call, get (Application.accept app call) = match kind call with
      | some (listener, value) => Function.update (get app) listener (get app listener ++ [value])
      | none => get app) (app : Application Router Ws Tcp Grpc) (name : String) :
    get (calls.foldl Application.accept app) name = get app name ++ broughtFor calls kind name := by
  induction calls generalizing app with
  | nil => simp [broughtFor]
  | cons call calls ih =>
    rw [List.foldl_cons, ih, hget]
    cases hkind : kind call with
    | none => simp [broughtFor, hkind]
    | some entry =>
      by_cases h : entry.1 = name
      · subst h
        simp [broughtFor, hkind]
      · simp [broughtFor, hkind, h, Function.update_of_ne (Ne.symm h)]

theorem foldl_replaces {α : Type} (kind : Call Router Ws Tcp Grpc → Option (String × α))
    (get : Application Router Ws Tcp Grpc → String → Option α)
    (hget : ∀ app call, get (Application.accept app call) = match kind call with
      | some (listener, value) => Function.update (get app) listener (some value)
      | none => get app) (app : Application Router Ws Tcp Grpc) (name : String) :
    get (calls.foldl Application.accept app) name =
      (broughtFor calls kind name).getLast?.or (get app name) := by
  induction calls generalizing app with
  | nil => simp [broughtFor]
  | cons call calls ih =>
    rw [List.foldl_cons, ih, hget]
    cases hkind : kind call with
    | none => simp [broughtFor, hkind]
    | some entry =>
      by_cases h : entry.1 = name
      · subst h
        simp [broughtFor, hkind, List.getLast?_cons]
      · simp [broughtFor, hkind, h, Function.update_of_ne (Ne.symm h)]

theorem remaining_build : Remaining calls pluginRouters
    ((calls.foldl Application.accept .empty).withPluginRouters pluginRouters) [] where
  http name := by
    have h : (calls.foldl Application.accept .empty).httpRouters name =
        [] ++ broughtFor calls Call.httpRouter? name :=
      foldl_appends calls Call.httpRouter? Application.httpRouters
        (fun _ call => by cases call <;> rfl) .empty name
    by_cases hname : name = pluginKey
    · subst hname
      simp [Application.withPluginRouters, routersFor, claimed, pluginsClaimed, h]
    · simp [Application.withPluginRouters, routersFor, claimed, hname, h]
  ws name := by
    have h : (calls.foldl Application.accept .empty).wsHandlers name =
        (wsHandlerFor calls name).or none :=
      foldl_replaces calls Call.wsHandler? Application.wsHandlers
        (fun _ call => by cases call <;> rfl) .empty name
    simp [Application.withPluginRouters, claimed, h]
  tcp name := by
    have h : (calls.foldl Application.accept .empty).tcpHandlers name =
        (tcpHandlerFor calls name).or none :=
      foldl_replaces calls Call.tcpHandler? Application.tcpHandlers
        (fun _ call => by cases call <;> rfl) .empty name
    simp [Application.withPluginRouters, claimed, h]
  grpc name := foldl_appends calls Call.grpcService? Application.grpcServices
    (fun _ call => by cases call <;> rfl) .empty name
  trpc name := foldl_appends calls Call.trpcService? Application.trpcServices
    (fun _ call => by cases call <;> rfl) .empty name

-- ---------------------------------------------------------------------------
-- One listener after the others
-- ---------------------------------------------------------------------------

section
variable {lib healthEnabled calls pluginRouters} {app app' : Application Router Ws Tcp Grpc}
  {earlier : List ListenerConfig} {listener : ListenerConfig}

/-- The HTTP listener takes what is under its name, and what plugins have left. -/
def Application.withoutHttp (app : Application Router Ws Tcp Grpc) (name : String) :
    Application Router Ws Tcp Grpc :=
  { app with
    httpRouters := Function.update (Function.update app.httpRouters name []) pluginKey []
    wsHandlers := Function.update app.wsHandlers name none }

theorem startHttpListener_eq : startHttpListener lib healthEnabled app listener =
    (mergeInto lib none (Function.update app.httpRouters listener.name [] pluginKey ++
      app.httpRouters listener.name ++ (if healthEnabled then [lib.healthRouter] else []) ++
      if listener.httpOpts.wsEnabled then
        (app.wsHandlers listener.name).toList.map lib.wsRouter else [])).map fun merged =>
      (.http listener.name merged, app.withoutHttp listener.name) := by
  have hws : (match app.wsHandlers listener.name with
      | some handler => if listener.httpOpts.wsEnabled then [lib.wsRouter handler] else []
      | none => []) = if listener.httpOpts.wsEnabled then
        (app.wsHandlers listener.name).toList.map lib.wsRouter else [] := by
    cases app.wsHandlers listener.name <;> cases listener.httpOpts.wsEnabled <;> rfl
  simp only [startHttpListener, mergeInto_append, hws, Option.map_eq_bind, Option.bind_assoc]
  rfl

/-- The routers of an HTTP listener, as what was taken before it leaves them. -/
theorem Remaining.httpRouters (h : Remaining calls pluginRouters app earlier) (name : String) :
    Function.update app.httpRouters name [] pluginKey ++ app.httpRouters name =
      (if pluginsClaimed earlier then [] else routersFor calls pluginRouters pluginKey) ++
        if !claimed earlier .http name && name ≠ pluginKey then
          routersFor calls pluginRouters name else [] := by
  by_cases hname : name = pluginKey
  · subst hname
    have hclaimed : claimed earlier .http pluginKey = true → pluginsClaimed earlier = true :=
      pluginsClaimed_of_claimed
    rw [Function.update_self, h.http pluginKey]
    cases hp : pluginsClaimed earlier <;> cases hc : claimed earlier .http pluginKey <;> simp_all
  · rw [Function.update_of_ne (Ne.symm hname), h.http name, h.http pluginKey]
    have hclaimed : claimed earlier .http pluginKey = true → pluginsClaimed earlier = true :=
      pluginsClaimed_of_claimed
    cases hp : pluginsClaimed earlier <;> cases hc : claimed earlier .http pluginKey <;>
      cases hn : claimed earlier .http name <;> simp_all

theorem startListener_serves (h : Remaining calls pluginRouters app earlier) :
    (startListener lib healthEnabled app listener).map Prod.fst =
      serves lib healthEnabled calls pluginRouters earlier listener := by
  unfold startListener serves
  cases hp : listener.protocol with
  | http =>
    simp only [startHttpListener_eq, h.httpRouters, h.ws listener.name, Option.map_map]
    cases hc : claimed earlier .http listener.name <;> cases listener.httpOpts.wsEnabled <;> rfl
  | tcp =>
    simp only [startTcpListener, h.tcp listener.name, Option.map_some]
    cases hc : claimed earlier .tcp listener.name with
    | true => rfl
    | false =>
      cases tcpHandlerFor calls listener.name with
      | none => rfl
      | some handler => cases listener.tcpOpts.pipeline.mapM lib.transforms <;> rfl
  | grpc =>
    simp only [startGrpcListener, h.grpc listener.name, Option.map_some]
    cases claimed earlier .grpc listener.name <;> rfl
  | trpc =>
    simp only [startTrpcListener, h.trpc listener.name, Option.map_map]
    cases claimed earlier .trpc listener.name <;> rfl

/-- What a listener of another protocol, or under another name, leaves alone. -/
theorem Left.concat {α : Type} {there all : String → α} {gone : α} {protocol : ListenerProtocol}
    (h : Left there all gone (claimed earlier protocol)) (hp : listener.protocol ≠ protocol) :
    Left there all gone (claimed (earlier ++ [listener]) protocol) :=
  h.congr fun name => by simp [claimed_concat, hp]

theorem Left.concat_take {α : Type} {there all : String → α} {gone : α}
    (h : Left there all gone (claimed earlier listener.protocol)) :
    Left (Function.update there listener.name gone) all gone
      (claimed (earlier ++ [listener]) listener.protocol) :=
  (h.take listener.name).congr fun name => by simp [claimed_concat, eq_comm]

theorem Left.http_concat {α : Type} {there all : String → α} {gone : α}
    (h : Left there all gone fun name =>
      claimed earlier .http name || (name = pluginKey && pluginsClaimed earlier))
    (hp : listener.protocol ≠ .http) :
    Left there all gone fun name => claimed (earlier ++ [listener]) .http name ||
      (name = pluginKey && pluginsClaimed (earlier ++ [listener])) :=
  h.congr fun name => by simp [claimed_concat, pluginsClaimed, hp]

theorem Remaining.step {started : Started Router Tcp Grpc Transform}
    (h : Remaining calls pluginRouters app earlier)
    (hstart : startListener lib healthEnabled app listener = some (started, app')) :
    Remaining calls pluginRouters app' (earlier ++ [listener]) := by
  unfold startListener at hstart
  cases hp : listener.protocol with
  | http =>
    simp only [hp, startHttpListener_eq, Option.map_eq_some_iff, Prod.mk.injEq] at hstart
    obtain ⟨-, -, -, rfl⟩ := hstart
    refine ⟨?_, ?_, h.tcp.concat (by simp [hp]), h.grpc.concat (by simp [hp]),
      h.trpc.concat (by simp [hp])⟩
    · refine ((h.http.take listener.name).take pluginKey).congr fun name => ?_
      have hnow : pluginsClaimed (earlier ++ [listener]) = true := by simp [pluginsClaimed, hp]
      simp only [claimed_concat, hnow, hp, true_and, eq_comm]
      cases claimed earlier .http name <;> by_cases hname : name = pluginKey <;> simp [hname]
    · have hws := h.ws
      rw [← hp] at hws ⊢
      exact hws.concat_take
  | tcp =>
    have hupdate : app' = { app with
        tcpHandlers := Function.update app.tcpHandlers listener.name none } := by
      simp only [hp, startTcpListener, Option.some.injEq] at hstart
      split at hstart
      · rename_i hnone
        rw [← (Prod.mk.inj hstart).2, ← hnone, Function.update_eq_self]
      · split at hstart <;> exact (Prod.mk.inj hstart).2.symm
    subst hupdate
    have htcp := h.tcp
    rw [← hp] at htcp
    exact ⟨h.http.http_concat (by simp [hp]), h.ws.concat (by simp [hp]), hp ▸ htcp.concat_take,
      h.grpc.concat (by simp [hp]), h.trpc.concat (by simp [hp])⟩
  | grpc =>
    simp only [hp, startGrpcListener, Option.some.injEq, Prod.mk.injEq] at hstart
    obtain ⟨-, rfl⟩ := hstart
    have hgrpc := h.grpc
    rw [← hp] at hgrpc
    exact ⟨h.http.http_concat (by simp [hp]), h.ws.concat (by simp [hp]),
      h.tcp.concat (by simp [hp]), hp ▸ hgrpc.concat_take, h.trpc.concat (by simp [hp])⟩
  | trpc =>
    simp only [hp, startTrpcListener, Option.map_eq_some_iff, Prod.mk.injEq] at hstart
    obtain ⟨-, -, -, rfl⟩ := hstart
    have htrpc := h.trpc
    rw [← hp] at htrpc
    exact ⟨h.http.http_concat (by simp [hp]), h.ws.concat (by simp [hp]),
      h.tcp.concat (by simp [hp]), h.grpc.concat (by simp [hp]), hp ▸ htrpc.concat_take⟩

theorem startListeners_eq (h : Remaining calls pluginRouters app earlier)
    (listeners : List ListenerConfig) :
    startListeners lib healthEnabled app listeners =
      servesAll lib healthEnabled calls pluginRouters earlier listeners := by
  induction listeners generalizing app earlier with
  | nil => rfl
  | cons listener listeners ih =>
    rw [startListeners, servesAll, ← startListener_serves h]
    cases hstart : startListener lib healthEnabled app listener with
    | none => rfl
    | some p =>
      obtain ⟨started, app'⟩ := p
      simp only [Option.map_some, Option.bind_eq_bind, Option.bind_some]
      rw [ih (h.step hstart)]

end

/-- `run` starts each listener with exactly what is its own: whatever the order of
the calls of the builder, from its configuration, what was brought under its
name, and which names the listeners before it had. -/
theorem run_eq_servesAll (listeners : List ListenerConfig) :
    run lib healthEnabled calls pluginRouters listeners =
      servesAll lib healthEnabled calls pluginRouters [] listeners :=
  startListeners_eq (remaining_build calls pluginRouters) listeners

end

end

end Rinfra.Runtime
