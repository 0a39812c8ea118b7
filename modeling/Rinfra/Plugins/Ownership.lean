import Rinfra.Lib.Transition
import Rinfra.Plugins.Shutdown

/-!
# Who owns the hooks

A hook is run by a shutdown only if the registry has it. `build_all` moves the
hooks of the context over once all plugins are built, in place of those the
registry had: a call that fails moves nothing, and a later call that succeeds
drops what earlier ones brought.

`Books` goes along with the registry and lists what it should own.
-/

namespace Rinfra.Plugins

open Rinfra.Lib PluginRegistry

def called : List Plugin → List Plugin
  | [] => []
  | plugin :: plugins =>
    match plugin.result with
    | .ok () => plugin :: called plugins
    | .error _ => [plugin]

def Fails (plugins : List Plugin) : Prop := ∃ plugin ∈ plugins, ∃ e, plugin.result = .error e

/-- The hooks the plugins of a call register, those of a failing one included. -/
def registered (plugins : List Plugin) : List ShutdownHookFn :=
  (called plugins).flatMap Plugin.hooks

/-- The context a `build_all` is given is a new one or any other, with what an
earlier call left in it. -/
structure Call where
  plugins : List Plugin
  ctx : PluginContext


structure Books where
  registry : PluginRegistry
  /-- The hooks that the plugins registered or the registry absorbed. -/
  hooks : List ShutdownHookFn
  /-- The manifests that the registry absorbed. -/
  manifests : List PluginManifest

def Books.init : Books := ⟨.new, [], []⟩

def step (b : Books) (c : Call) : Option Books :=
  match b.registry.buildAll c.plugins c.ctx with
  | (.ok (), registry, _) =>
    some ⟨registry, b.hooks ++ c.ctx.shutdownHooks ++ registered c.plugins,
      b.manifests ++ registry.manifests⟩
  | (.error _, registry, _) => some ⟨registry, b.hooks ++ registered c.plugins, b.manifests⟩

/-- The registry owns every hook of the books, in their order, and lists every
manifest. -/
def Kept (b : Books) : Prop :=
  b.registry.shutdownHooks = b.hooks ∧ ∀ m ∈ b.manifests, m ∈ b.registry.manifests

/-- A shutdown whose hooks all complete starts every hook of the books once,
in reverse order. -/
def RunsAll (b : Books) : Prop :=
  ∀ deadline, (∀ hook ∈ b.hooks, Completes deadline hook) →
    (b.registry.shutdownAll deadline).started = b.hooks.reverse

/-- A failing call is one whose plugins registered no hook, and a call that
succeeds finds no hook in the registry and brings the manifests listed there. -/
def Keeps (b : Books) (c : Call) : Prop :=
  (Fails c.plugins → registered c.plugins = []) ∧
  (¬ Fails c.plugins → b.registry.shutdownHooks = [] ∧
    ∀ m ∈ b.registry.manifests, m ∈ c.ctx.manifests ∨ ∃ plugin ∈ c.plugins, plugin.manifest = m)

-- ---------------------------------------------------------------------------
-- What a call does
-- ---------------------------------------------------------------------------

theorem build_ctx (plugin : Plugin) (ctx : PluginContext) :
    plugin.build ctx =
      (plugin.result, { ctx with shutdownHooks := ctx.shutdownHooks ++ plugin.hooks }) := by
  unfold Plugin.build
  congr 1
  induction plugin.hooks generalizing ctx with
  | nil => simp
  | cons hook hooks ih => simp [ih, PluginContext.addShutdownHook]

theorem fails_cons_ok (h : plugin.result = .ok ()) :
    Fails (plugin :: plugins) ↔ Fails plugins := by
  simp [Fails, h]

theorem buildLoop_ok (h : ¬ Fails plugins) :
    buildLoop plugins ctx = (.ok (), ⟨ctx.manifests ++ plugins.map Plugin.manifest,
      ctx.shutdownHooks ++ registered plugins⟩) := by
  induction plugins generalizing ctx with
  | nil => simp [buildLoop, registered, called]
  | cons plugin plugins ih =>
    cases hr : plugin.result with
    | error e => exact absurd ⟨plugin, List.mem_cons_self, e, hr⟩ h
    | ok =>
      rw [fails_cons_ok hr] at h
      simp [buildLoop, build_ctx, hr, ih h, registered, called]

theorem buildLoop_error (ctx : PluginContext) (h : Fails plugins) :
    ∃ e ctx', buildLoop plugins ctx = (.error e, ctx') := by
  induction plugins generalizing ctx with
  | nil => simp [Fails] at h
  | cons plugin plugins ih =>
    cases hr : plugin.result with
    | error e => simp [buildLoop, build_ctx, hr]
    | ok =>
      rw [fails_cons_ok hr] at h
      simpa [buildLoop, build_ctx, hr] using ih _ h

theorem step_fails (h : Fails c.plugins) :
    step b c = some { b with hooks := b.hooks ++ registered c.plugins } := by
  obtain ⟨e, ctx, he⟩ := buildLoop_error c.ctx h
  simp [step, buildAll, he]

theorem step_succeeds (h : ¬ Fails c.plugins) :
    step b c = some
      ⟨⟨c.ctx.manifests ++ c.plugins.map Plugin.manifest,
          c.ctx.shutdownHooks ++ registered c.plugins⟩,
        b.hooks ++ c.ctx.shutdownHooks ++ registered c.plugins,
        b.manifests ++ (c.ctx.manifests ++ c.plugins.map Plugin.manifest)⟩ := by
  simp [step, buildAll, buildLoop_ok h]

-- ---------------------------------------------------------------------------
-- What a run keeps
-- ---------------------------------------------------------------------------

/-- The registry lists nothing that it has not absorbed. -/
def Listed (b : Books) : Prop := ∀ m ∈ b.registry.manifests, m ∈ b.manifests

theorem Listed.step (hi : Listed b) (h : step b c = some b') : Listed b' := by
  by_cases hf : Fails c.plugins
  · rw [step_fails hf] at h
    cases h
    exact hi
  · rw [step_succeeds hf] at h
    cases h
    exact fun m hm => List.mem_append_right _ hm

theorem Kept.step_iff (hi : Listed b) (hk : Kept b) (h : step b c = some b') :
    Kept b' ↔ Keeps b c := by
  obtain ⟨hhooks, hman⟩ := hk
  by_cases hf : Fails c.plugins
  · rw [step_fails hf] at h
    cases h
    have hnone : b.hooks = b.hooks ++ registered c.plugins ↔ registered c.plugins = [] := by simp
    simp only [Kept, Keeps, hhooks, hnone, hf, true_implies, not_true_eq_false, false_implies,
      and_true]
    exact and_iff_left hman
  · rw [step_succeeds hf] at h
    cases h
    have hdrop : c.ctx.shutdownHooks ++ registered c.plugins =
        b.hooks ++ c.ctx.shutdownHooks ++ registered c.plugins ↔ b.hooks = [] := by
      simp
    have hlist : (∀ m ∈ b.manifests ++ (c.ctx.manifests ++ c.plugins.map Plugin.manifest),
          m ∈ c.ctx.manifests ++ c.plugins.map Plugin.manifest) ↔
        ∀ m ∈ b.registry.manifests,
          m ∈ c.ctx.manifests ∨ ∃ plugin ∈ c.plugins, plugin.manifest = m := by
      rw [List.forall_mem_append, and_iff_left fun m hm => hm]
      simp only [List.mem_append, List.mem_map]
      exact ⟨fun h m hm => h m (hi m hm), fun h m hm => h m (hman m hm)⟩
    simp only [Kept, Keeps, hdrop, hlist, hhooks, hf, false_implies, not_false_eq_true,
      true_implies, true_and]

theorem Kept.runsAll (hk : Kept b) : RunsAll b := by
  intro deadline hall
  rw [← hk.1] at hall ⊢
  exact runHooks_started_iff.mpr fun hook hhook =>
    hall hook (List.mem_reverse.mp (List.dropLast_subset _ hhook))

/-- In a sequence of `build_all` calls the registry owns all along every hook
that a plugin registered or an earlier call brought, ready to be run once and
in reverse order, and lists every manifest it ever did, exactly when a failing
call's plugins registered no hook and a call that succeeds finds a registry
without hooks whose manifests it brings again. -/
theorem kept_iff_keeps (calls : List Call) :
    Always step (fun b => Kept b ∧ RunsAll b) .init calls ↔ Guarded step Keeps .init calls := by
  have hkept : Kept .init := ⟨rfl, by simp [Books.init]⟩
  have hlisted : Listed .init := by simp [Listed, Books.init, PluginRegistry.new]
  have hkeeps : Always step Kept .init calls ↔ Guarded step Keeps .init calls :=
    always_iff_guarded hlisted hkept (fun _ _ _ hi _ hs _ => hi.step hs)
      fun _ _ _ hi hk hs => hk.step_iff hi hs
  rw [← hkeeps]
  exact ⟨fun h => h.mono fun _ hb => hb.1, fun h => h.mono fun _ hb => ⟨hb, hb.runsAll⟩⟩

def bus : Plugin := ⟨⟨"mq.memory", "0.1.0", "message bus"⟩, [⟨some 10, .ok ()⟩], .ok ()⟩

def audit : Plugin := ⟨⟨"audit", "0.1.0", "audit log"⟩, [⟨some 5, .ok ()⟩], .ok ()⟩

def failing : Plugin :=
  ⟨⟨"bad", "0.1.0", "test"⟩, [], .error ⟨.internal, "forced failure"⟩⟩

/-- The bus is open when the second plugin fails; and of two calls that succeed
the second one's hook is all there is to run. -/
theorem failed_or_second_build_loses_hook :
    (∃ b, run step .init [⟨[bus, failing], .new⟩] = some b ∧ b.hooks = bus.hooks ∧
      (b.registry.shutdownAll 1000).started = [] ∧ ¬ Kept b) ∧
    ∃ b, run step .init [⟨[bus], .new⟩, ⟨[audit], .new⟩] = some b ∧
      b.hooks = bus.hooks ++ audit.hooks ∧
      (b.registry.shutdownAll 1000).started = audit.hooks ∧
      b.registry.manifests = [audit.manifest] ∧ ¬ Kept b := by
  refine ⟨⟨_, rfl, rfl, rfl, ?_⟩, _, rfl, rfl, rfl, rfl, ?_⟩
  · rintro ⟨hhooks, -⟩
    exact absurd (congrArg List.length hhooks) (by decide)
  · rintro ⟨hhooks, -⟩
    exact absurd (congrArg List.length hhooks) (by decide)

end Rinfra.Plugins
