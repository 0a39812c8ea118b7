import Rinfra.Plugins.Registry

/-!
# Running the shutdown hooks

The hooks run one after the other, the last one registered first, and the
first that fails ends the loop. Those still to come have been taken out of the
registry and are dropped.
-/

namespace Rinfra.Plugins

namespace PluginRegistry

def Completes (deadline : Nat) (hook : ShutdownHookFn) : Prop :=
  timeout deadline hook = some (.ok ())

/-- Each hook was started once, the last one registered first. -/
def Shutdown.RanAll (s : Shutdown) (reg : PluginRegistry) : Prop :=
  s.started = reg.shutdownHooks.reverse

/-- The result is an error exactly when some hook failed or timed out. -/
def Shutdown.Reports (s : Shutdown) (reg : PluginRegistry) (deadline : Nat) : Prop :=
  (∃ e, s.result = .error e) ↔ ∃ hook ∈ reg.shutdownHooks, ¬ Completes deadline hook

section
variable {deadline : Nat} {hook : ShutdownHookFn} {hooks : List ShutdownHookFn}

theorem runHooks_completes (h : Completes deadline hook) :
    runHooks deadline (hook :: hooks) =
      ((runHooks deadline hooks).1, hook :: (runHooks deadline hooks).2) := by
  simp [runHooks, show timeout deadline hook = some (.ok ()) from h]

theorem runHooks_fails (hooks : List ShutdownHookFn) (h : ¬ Completes deadline hook) :
    ∃ e, runHooks deadline (hook :: hooks) = (.error e, [hook]) := by
  unfold runHooks
  split
  · rename_i ht
    exact absurd ht h
  · exact ⟨_, rfl⟩
  · exact ⟨_, rfl⟩

theorem runHooks_error_iff :
    (∃ e, (runHooks deadline hooks).1 = .error e) ↔ ∃ hook ∈ hooks, ¬ Completes deadline hook := by
  induction hooks with
  | nil => simp [runHooks]
  | cons hook hooks ih =>
    by_cases h : Completes deadline hook
    · rw [runHooks_completes h]
      simp [ih, h]
    · obtain ⟨e, he⟩ := runHooks_fails hooks h
      simp [he, h]

/-- All hooks are started when all but the last one complete. -/
theorem runHooks_started_iff :
    (runHooks deadline hooks).2 = hooks ↔ ∀ hook ∈ hooks.dropLast, Completes deadline hook := by
  induction hooks with
  | nil => simp [runHooks]
  | cons hook hooks ih =>
    by_cases h : Completes deadline hook
    · rw [runHooks_completes h]
      cases hooks with
      | nil => simp [runHooks]
      | cons next hooks => simpa [h] using ih
    · obtain ⟨e, he⟩ := runHooks_fails hooks h
      cases hooks <;> simp [he, h]

end

/-- `shutdown_all` starts every hook once, in reverse order, and reports
whether some hook failed or timed out, exactly when every hook but the first
one registered returns `Ok` within the deadline. -/
theorem shutdownAll_iff_later_complete (reg : PluginRegistry) (deadline : Nat) :
    ((reg.shutdownAll deadline).RanAll reg ∧ (reg.shutdownAll deadline).Reports reg deadline) ↔
      ∀ hook ∈ reg.shutdownHooks.tail, Completes deadline hook := by
  have hreports : (reg.shutdownAll deadline).Reports reg deadline := by
    simp [Shutdown.Reports, shutdownAll, runHooks_error_iff]
  have hran : (reg.shutdownAll deadline).RanAll reg ↔
      ∀ hook ∈ reg.shutdownHooks.reverse.dropLast, Completes deadline hook := runHooks_started_iff
  rw [and_iff_left hreports, hran, List.dropLast_reverse]
  simp only [List.mem_reverse]

/-- A bus to be flushed and an audit log opened after it, whose connection is
gone by the time of the shutdown. -/
def brokenAudit : PluginRegistry :=
  { new with shutdownHooks := [⟨some 10, .ok ()⟩, ⟨some 5, .error ⟨.auditLogFailed, "gone"⟩⟩] }

theorem brokenAudit_skips_bus :
    (brokenAudit.shutdownAll 1000).started = brokenAudit.shutdownHooks.tail ∧
      (brokenAudit.shutdownAll 1000).result =
        .error ⟨.pluginShutdownFailed, "shutdown hook failed: [AUDIT_LOG_FAILED] gone"⟩ ∧
      (brokenAudit.shutdownAll 1000).registry.shutdownHooks = [] ∧
      ¬ (brokenAudit.shutdownAll 1000).RanAll brokenAudit := by
  refine ⟨rfl, rfl, rfl, ?_⟩
  intro h
  exact absurd (congrArg List.length h) (by decide)

end PluginRegistry

end Rinfra.Plugins
