import Rinfra.Config.Env
import Rinfra.Config.Model
import Rinfra.Core.Error

/-!
# Loading a configuration

A file is parsed into a configuration, or into a tree that takes the overrides
before it is read. A configuration takes them by way of the tree that it
serializes to.
-/

namespace Rinfra.Config

open Rinfra.Lib Rinfra.Lib.Json

/-- What comes from outside: the YAML parser, for trees and for configurations (what
they serialize to), why a tree is not one, and the lower case of a text. -/
structure Serde where
  yamlValue : String → Except String Value
  yamlConfig : Draw → String → Except String Value
  mismatch : Value → String
  lower : String → String

/-- A process: its variables, and the uuid it draws next. -/
structure Process where
  vars : List (String × String)
  uuid : String

def hostnameOrUuid (process : Process) : String :=
  ((process.vars.lookup "HOSTNAME").or (process.vars.lookup "POD_NAME")).getD process.uuid

def configTy : Ty := .record rinfraConfig

def RinfraConfig.default (draw : Draw) : RinfraConfig where
  configPath := ""
  settings := (read draw configTy (.object [])).getD .null

theorem RinfraConfig.read_default (draw : Draw) :
    read draw configTy (.object []) = some (RinfraConfig.default draw).settings := by
  have hsome : (read draw configTy (.object [])).isSome := rfl
  obtain ⟨settings, hread⟩ := Option.isSome_iff_exists.mp hsome
  rw [RinfraConfig.default, hread, Option.getD_some]

variable (serde : Serde) (process : Process)

def fromValue (value : Value) : Except String RinfraConfig :=
  match read (hostnameOrUuid process) configTy value with
  | some settings => .ok { configPath := "", settings }
  | none => .error (serde.mismatch value)

def loadFromStr (yaml : String) : Except AppError RinfraConfig :=
  match serde.yamlConfig (hostnameOrUuid process) yaml with
  | .ok settings => .ok { configPath := "", settings }
  | .error e => .error ⟨.configParseFailed, s!"failed to parse YAML config: {e}"⟩

/-- `std::fs::read_to_string`, where the reading has the given outcome. -/
def readToString (path : String) (file : Except String String) : Except AppError String :=
  file.mapError fun e => ⟨.configFileMissing, s!"config file '{path}' not found: {e}"⟩

def loadFromFile (path : String) (file : Except String String) :
    Except AppError RinfraConfig := do
  let content ← readToString path file
  loadFromStr serde process content

def applyEnvOverrides (config : RinfraConfig) : RinfraConfig :=
  let (count, value) := mergeEnvIntoValue serde.lower process.vars config.settings
  if 0 < count then
    match fromValue serde process value with
    | .ok updated => updated
    | .error _ => config
  else config

def loadWithEnv (path : String) (file : Except String String) :
    Except AppError RinfraConfig := do
  let content ← readToString path file
  let value ← (serde.yamlValue content).mapError fun e =>
    ⟨.configParseFailed, s!"failed to parse YAML config: {e}"⟩
  let (_, value) := mergeEnvIntoValue serde.lower process.vars value
  (fromValue serde process value).mapError fun e =>
    ⟨.configParseFailed, s!"config deserialization failed after env override: {e}"⟩

variable {serde process} {value : Value} {config : RinfraConfig}

theorem fromValue_eq_ok :
    fromValue serde process value = .ok config ↔
      read (hostnameOrUuid process) configTy value = some config.settings ∧
        config.configPath = "" := by
  obtain ⟨configPath, settings⟩ := config
  unfold fromValue
  split
  · rename_i w hw
    simp [hw, eq_comm, and_comm]
  · rename_i hw
    simp [hw]

theorem loadWithEnv_eq_ok {path content : String} :
    loadWithEnv serde process path (.ok content) = .ok config ↔
      ∃ value, serde.yamlValue content = .ok value ∧
        fromValue serde process (mergeEnvIntoValue serde.lower process.vars value).2 =
          .ok config := by
  cases hvalue : serde.yamlValue content with
  | error e => simp [loadWithEnv, readToString, Except.mapError, hvalue, bind, Except.bind]
  | ok value =>
    cases hread : fromValue serde process (mergeEnvIntoValue serde.lower process.vars value).2 <;>
      simp [loadWithEnv, readToString, Except.mapError, hvalue, hread, bind, Except.bind]

theorem applyEnvOverrides_idle (h : overrides serde.lower process.vars = []) :
    applyEnvOverrides serde process config = config := by
  simp [applyEnvOverrides, mergeEnvIntoValue, h]

theorem applyEnvOverrides_of_ok {updated : RinfraConfig}
    (hvars : overrides serde.lower process.vars ≠ [])
    (h : fromValue serde process
      (mergeEnvIntoValue serde.lower process.vars config.settings).2 = .ok updated) :
    applyEnvOverrides serde process config = updated := by
  have hcount : 0 < (mergeEnvIntoValue serde.lower process.vars config.settings).1 :=
    List.length_pos_iff.mpr hvars
  simp only [applyEnvOverrides, hcount, if_true, h]

theorem applyEnvOverrides_of_error {e : String}
    (h : fromValue serde process
      (mergeEnvIntoValue serde.lower process.vars config.settings).2 = .error e) :
    applyEnvOverrides serde process config = config := by
  simp only [applyEnvOverrides, h, ite_self]

end Rinfra.Config
