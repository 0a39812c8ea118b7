import Rinfra.Core.Error

/-!
# The plugin registry

Plugins register shutdown hooks with the `PluginContext` they are built in.
`build_all` moves the hooks and manifests from the context to the registry,
`shutdown_all` takes the hooks out and runs them.

The rest of a context (configuration, components, codecs, routers) plays no
part in either and is left out.
-/

namespace Rinfra.Plugins

structure PluginManifest where
  name : String
  version : String
  description : String
  deriving DecidableEq, Repr

/-- A hook by how its future goes once started: how long it takes, if it ever
completes, and what it returns. -/
structure ShutdownHookFn where
  takes : Option Nat
  result : Except AppError Unit

structure PluginContext where
  manifests : List PluginManifest
  shutdownHooks : List ShutdownHookFn

/-- A plugin by what its `build` does: the hooks it registers before it
returns, and what it returns. -/
structure Plugin where
  manifest : PluginManifest
  hooks : List ShutdownHookFn
  result : Except AppError Unit

structure PluginRegistry where
  manifests : List PluginManifest
  shutdownHooks : List ShutdownHookFn

def PluginContext.new : PluginContext := ⟨[], []⟩

def PluginContext.addShutdownHook (ctx : PluginContext) (f : ShutdownHookFn) : PluginContext :=
  { ctx with shutdownHooks := ctx.shutdownHooks ++ [f] }

def Plugin.build (plugin : Plugin) (ctx : PluginContext) : Except AppError Unit × PluginContext :=
  (plugin.result, plugin.hooks.foldl PluginContext.addShutdownHook ctx)

/-- `tokio::time::timeout`, `none` once the deadline has passed. -/
def timeout (deadline : Nat) (hook : ShutdownHookFn) : Option (Except AppError Unit) :=
  match hook.takes with
  | some takes => if takes ≤ deadline then some hook.result else none
  | none => none

namespace PluginRegistry

def new : PluginRegistry := ⟨[], []⟩

def buildFailed (name : String) (e : AppError) : AppError :=
  ⟨.pluginInitFailed, s!"plugin '{name}' build failed: {e.display}"⟩

def buildLoop : List Plugin → PluginContext → Except AppError Unit × PluginContext
  | [], ctx => (.ok (), ctx)
  | plugin :: plugins, ctx =>
    match plugin.build ctx with
    | (.error e, ctx) => (.error (buildFailed plugin.manifest.name e), ctx)
    | (.ok (), ctx) =>
      buildLoop plugins { ctx with manifests := ctx.manifests ++ [plugin.manifest] }

def buildAll (reg : PluginRegistry) (plugins : List Plugin) (ctx : PluginContext) :
    Except AppError Unit × PluginRegistry × PluginContext :=
  match buildLoop plugins ctx with
  | (.error e, ctx) => (.error e, reg, ctx)
  | (.ok (), ctx) => (.ok (), ⟨ctx.manifests, ctx.shutdownHooks⟩, .new)

def shutdownFailed (e : AppError) : AppError :=
  ⟨.pluginShutdownFailed, s!"shutdown hook failed: {e.display}"⟩

def shutdownTimeout : AppError := ⟨.pluginShutdownTimeout, "shutdown hook timed out"⟩

/-- The loop of `shutdown_all`, with the hooks it starts. -/
def runHooks (deadline : Nat) : List ShutdownHookFn → Except AppError Unit × List ShutdownHookFn
  | [] => (.ok (), [])
  | hook :: hooks =>
    match timeout deadline hook with
    | some (.ok ()) =>
      let (result, started) := runHooks deadline hooks
      (result, hook :: started)
    | some (.error e) => (.error (shutdownFailed e), [hook])
    | none => (.error shutdownTimeout, [hook])

structure Shutdown where
  result : Except AppError Unit
  started : List ShutdownHookFn
  registry : PluginRegistry

def shutdownAll (reg : PluginRegistry) (deadline : Nat) : Shutdown :=
  let (result, started) := runHooks deadline reg.shutdownHooks.reverse
  ⟨result, started, { reg with shutdownHooks := [] }⟩

end PluginRegistry

end Rinfra.Plugins
