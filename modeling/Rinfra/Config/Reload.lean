import Rinfra.Config.Agreement
import Rinfra.Config.Idle

/-!
# Reloading

The watcher looks at the time of the file at intervals, and parses the file when
that has changed. The environment has no part in it, so the handlers get the
configuration of the process only where its overrides are idle.
-/

namespace Rinfra.Config

open Rinfra.Lib Rinfra.Lib.Json

structure FileConfigWatcher (H : Type) where
  configPath : String
  pollIntervalSecs : Nat
  handlers : List H
  running : Bool
  cancelled : Bool
  lastMtime : Option (Option Nat)

variable {H : Type} (serde : Serde) (process : Process)

def parseConfig (file : Except String String) : Except AppError RinfraConfig := do
  let content ← file.mapError fun e =>
    ⟨.configReloadFailed, s!"failed to read config file: {e}"⟩
  match serde.yamlConfig (hostnameOrUuid process) content with
  | .ok settings => .ok { configPath := "", settings }
  | .error e => .error ⟨.configReloadFailed, s!"failed to parse config: {e}"⟩

namespace FileConfigWatcher

def new (configPath : String) (pollIntervalSecs : Nat) : FileConfigWatcher H where
  configPath := configPath
  pollIntervalSecs := max pollIntervalSecs 1
  handlers := []
  running := false
  cancelled := false
  lastMtime := none

def addHandler (watcher : FileConfigWatcher H) (handler : H) : FileConfigWatcher H :=
  { watcher with handlers := watcher.handlers ++ [handler] }

def start (watcher : FileConfigWatcher H) (mtime : Option Nat) : FileConfigWatcher H :=
  if watcher.running then watcher
  else { watcher with running := true, lastMtime := some mtime }

def stop (watcher : FileConfigWatcher H) : FileConfigWatcher H :=
  { watcher with cancelled := true, running := false }

/-- One turn of the task, with the time and the content of the file, and what each
handler is given. -/
def poll (watcher : FileConfigWatcher H) (mtime : Option Nat) (file : Except String String) :
    FileConfigWatcher H × List (H × RinfraConfig) :=
  match watcher.lastMtime with
  | none => (watcher, [])
  | some lastMtime =>
    if watcher.cancelled then ({ watcher with lastMtime := none }, [])
    else if mtime ≠ lastMtime then
      let watcher := { watcher with lastMtime := some mtime }
      match parseConfig serde process file with
      | .ok newConfig => (watcher, watcher.handlers.map fun h => (h, newConfig))
      | .error _ => (watcher, [])
    else (watcher, [])

def Due (watcher : FileConfigWatcher H) (mtime : Option Nat) : Prop :=
  watcher.cancelled = false ∧ ∃ lastMtime, watcher.lastMtime = some lastMtime ∧ mtime ≠ lastMtime

variable {serde process} {watcher : FileConfigWatcher H} {mtime : Option Nat}
  {file : Except String String} {config : RinfraConfig}

theorem poll_due (hdue : watcher.Due mtime) (hparse : parseConfig serde process file = .ok config) :
    (watcher.poll serde process mtime file).2 = watcher.handlers.map fun h => (h, config) := by
  obtain ⟨hcancelled, lastMtime, hlast, hne⟩ := hdue
  simp [poll, hlast, hcancelled, hne, hparse]

theorem poll_given {d : H × RinfraConfig} (h : d ∈ (watcher.poll serde process mtime file).2) :
    watcher.Due mtime ∧ parseConfig serde process file = .ok d.2 := by
  unfold poll at h
  split at h
  · cases h
  · rename_i lastMtime hlast
    split at h
    · cases h
    · rename_i hcancelled
      split at h
      · rename_i hne
        cases hparse : parseConfig serde process file with
        | error e =>
          rw [hparse] at h
          cases h
        | ok config =>
          rw [hparse] at h
          obtain ⟨handler, -, rfl⟩ := List.mem_map.mp h
          exact ⟨⟨by simpa using hcancelled, lastMtime, hlast, hne⟩, rfl⟩
      · cases h

end FileConfigWatcher

variable {serde process} {content : String} {config : RinfraConfig}

theorem parseConfig_eq_ok : parseConfig serde process (.ok content) = .ok config ↔
    serde.yamlConfig (hostnameOrUuid process) content = .ok config.settings ∧
      config.configPath = "" := by
  obtain ⟨configPath, settings⟩ := config
  cases h : serde.yamlConfig (hostnameOrUuid process) content <;>
    simp [parseConfig, Except.mapError, bind, Except.bind, h, eq_comm, and_comm]

/-- The file has a tree, and the overrides of the process are idle in it. -/
def Effective (serde : Serde) (process : Process) (content : String) (settings : Value) : Prop :=
  ∃ v, serde.yamlValue content = .ok v ∧ Idle (hostnameOrUuid process) configTy .empty (some v)
    (overrides serde.lower process.vars) settings

/-- What a file is parsed to is what it gives at the start exactly when the overrides are
idle. -/
theorem loadWithEnv_parsed_iff (hlaw : serde.Lawful) {process' : Process} {location : String}
    (hparse : parseConfig serde process' (.ok content) = .ok config) :
    loadWithEnv serde process location (.ok content) = .ok config ↔
      Effective serde process content config.settings := by
  obtain ⟨hw, hempty⟩ := parseConfig_eq_ok.mp hparse
  rw [loadWithEnv_eq_ok]
  refine exists_congr fun v => and_congr_right fun hv => ?_
  have hidle : readField (hostnameOrUuid process) configTy .empty
      (mergeChild (some v) (overrides serde.lower process.vars)) = some config.settings ↔ _ :=
    idle_iff configTy_sound configTy_flat configTy_fits (fun h => nomatch h) (hlaw _ _ _ _ hv hw)
  rw [← hidle, mergeChild_some overrides_ne_nil, fromValue_eq_ok, merge_eq_assign]
  exact and_iff_left hempty

/-- After a change of the file the handlers are given what the file would give at the
start exactly when the overrides are idle. -/
theorem reload_effective_iff (hlaw : serde.Lawful) {process' : Process}
    {watcher : FileConfigWatcher H} {mtime : Option Nat} {handler : H}
    (hdue : watcher.Due mtime) (hmem : handler ∈ watcher.handlers)
    (hparse : parseConfig serde process' (.ok content) = .ok config) :
    (∀ d ∈ (watcher.poll serde process' mtime (.ok content)).2,
      loadWithEnv serde process watcher.configPath (.ok content) = .ok d.2) ↔
    Effective serde process content config.settings := by
  rw [← loadWithEnv_parsed_iff hlaw hparse, FileConfigWatcher.poll_due hdue hparse]
  refine ⟨fun h => h _ (List.mem_map.mpr ⟨handler, hmem, rfl⟩), fun h d hd => ?_⟩
  obtain ⟨handler, -, rfl⟩ := List.mem_map.mp hd
  exact h

def startedWatcher : FileConfigWatcher Unit :=
  ((FileConfigWatcher.new "rinfra.yaml" 5).addHandler ()).start (some 1)

theorem startedWatcher_due : startedWatcher.Due (some 2) := ⟨rfl, some 1, rfl, by decide⟩

theorem parseConfig_emptyFiles {host : String} (h : hostnameOrUuid process = host) :
    parseConfig emptyFiles process (.ok emptyFile) = .ok (.default host) :=
  parseConfig_eq_ok.mpr ⟨by rw [h]; rfl, rfl⟩

/-- A name from the environment that the configuration has anyway. -/
def sameName : List (String × String) := [("HOSTNAME", "node"), ("RINFRA_APP__NAME", "rinfra-app")]

theorem reload_effective_iff_host :
    Effective emptyFiles ⟨sameName, "a"⟩ emptyFile (RinfraConfig.default "node").settings := by
  have hparse : parseConfig emptyFiles ⟨sameName, "b"⟩ (.ok emptyFile) = .ok (.default "node") :=
    parseConfig_emptyFiles (by decide)
  refine (reload_effective_iff emptyFiles_lawful startedWatcher_due List.mem_cons_self
    hparse).mp fun d hd => ?_
  obtain ⟨-, hd⟩ := FileConfigWatcher.poll_given hd
  rw [← Except.ok.inj (hparse.symm.trans hd)]
  have hread : read "node" configTy
      (mergeEnvIntoValue emptyFiles.lower sameName (.object [])).2 =
      some (RinfraConfig.default "node").settings := rfl
  exact loadWithEnv_eq_ok.mpr ⟨_, rfl, fromValue_eq_ok.mpr ⟨hread, rfl⟩⟩

/-- The name that the environment gives is gone after the first change of the file. -/
theorem name_dropped : ¬ ∀ d ∈
      (startedWatcher.poll emptyFiles ⟨namedApp, ""⟩ (some 2) (.ok emptyFile)).2,
    loadWithEnv emptyFiles ⟨namedApp, ""⟩ startedWatcher.configPath (.ok emptyFile) = .ok d.2 := by
  intro h
  have hparse : parseConfig emptyFiles ⟨namedApp, ""⟩ (.ok emptyFile) = .ok (.default "node") :=
    parseConfig_emptyFiles (by decide)
  rw [FileConfigWatcher.poll_due startedWatcher_due hparse] at h
  have hload := h _ List.mem_cons_self
  have hname : (loadWithEnv emptyFiles ⟨namedApp, ""⟩ "rinfra.yaml" (.ok emptyFile)).toOption.bind
      (fun config => (config.settings.at? ["app", "name"]).bind Value.asStr) = some "prod" := by
    decide +kernel
  have hdefault : ((RinfraConfig.default "node").settings.at? ["app", "name"]).bind Value.asStr =
      some "rinfra-app" := by
    decide +kernel
  rw [show startedWatcher.configPath = "rinfra.yaml" from rfl] at hload
  rw [hload, Except.toOption, Option.bind_some, hdefault] at hname
  exact absurd hname (by decide)

end Rinfra.Config
