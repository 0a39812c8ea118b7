import Rinfra.Config.Loader
import Rinfra.Config.Order

/-!
# Overrides of texts

What a variable is taken for is settled before it is known where it goes. A text
that is not taken for a bool or a number gets into a setting as it is.
-/

namespace Rinfra.Config

open Rinfra.Lib Rinfra.Lib.Json Rinfra.Lib.Overriding

variable {ty : Ty} {draw : Draw} {path : List String} {raw name : String} {v w : Value}
  {serde : Serde} {process : Process} {vars before after : List (String × String)}

/-- The trees are the same apart from the place, where the second has the text. -/
def Overridden (path : List String) (raw : String) (settings settings' : Value) : Prop :=
  settings'.at? path = some (.string raw) ∧
    ∀ other, ¬ path <+: other → ¬ other <+: path → settings'.at? other = settings.at? other

theorem read_setNested (hs : ty.Sound) (hat : ty.at? path = some .string)
    (hraw : parseEnvValue raw = .string raw) (hblocked : ¬ Blocked v path)
    (h : read draw ty v = some w) (hp : path ≠ []) :
    ∃ w', read draw ty (setNested v path raw) = some w' ∧ Overridden path raw w w' := by
  induction path generalizing ty v w with
  | nil => exact absurd rfl hp
  | cons key rest ih =>
    obtain ⟨names, dflt, field, rfl, hkey, hrest⟩ := Ty.at?_cons_eq_some.mp hat
    rcases v.object_or_leaf with ⟨fields, rfl⟩ | hv
    · obtain ⟨u', hu', hat', hother⟩ : ∃ u', read draw (field key)
          (below (SortedMap.get key fields) rest raw) = some u' ∧
          u'.at? rest = some (.string raw) ∧
          ∀ other, ¬ rest <+: other → ¬ other <+: rest → u'.at? other = w.at? (key :: other) := by
        by_cases hnil : rest = []
        · subst hnil
          have hstring : field key = .string := by simpa using hrest
          refine ⟨.string raw, ?_, rfl, fun other hpo => absurd List.nil_prefix hpo⟩
          rw [hstring, below, if_pos rfl, hraw]
          rfl
        · obtain ⟨u, hu, hatu⟩ := read_child hs h hkey (Ty.isStruct_of_at? hrest hnil)
          have hclear : ¬ Blocked ((SortedMap.get key fields).getD (.object [])) rest := by
            cases hget : SortedMap.get key fields with
            | none => exact not_blocked_empty
            | some child =>
              exact fun hb => hblocked ((blocked_object _ _ _).mpr ⟨child, hget, hb⟩)
          obtain ⟨u', hu', hat', hother⟩ := ih (hs key hkey).1 hrest hclear hu hnil
          refine ⟨u', by rw [below, if_neg hnil, hu'], hat', fun other hpo hop => ?_⟩
          rw [hother other hpo hop, hatu]
      obtain ⟨w', hw', hself, hname⟩ := read_insert h hkey hu'
      refine ⟨w', by rw [setNested_object, hw'], by rw [hself, hat'], fun other hpo hop => ?_⟩
      cases other with
      | nil => exact absurd List.nil_prefix hop
      | cons name other =>
        by_cases hne : name = key
        · subst hne
          rw [List.prefix_cons_inj] at hpo hop
          rw [hself, hother other hpo hop]
        · exact hname name other hne
    · exact absurd (blocked_leaf hv key rest) hblocked

-- ---------------------------------------------------------------------------
-- The overrides of a process
-- ---------------------------------------------------------------------------

theorem overrides_insert {lower : String → String} (hname : envPath lower name = some path) :
    overrides lower (before ++ (name, raw) :: after) =
      overrides lower before ++ (path, raw) :: overrides lower after := by
  simp [overrides, hname]

theorem merge_insert {lower : String → String} (hname : envPath lower name = some path)
    (hother : ∀ e ∈ overrides lower (before ++ after), ¬ e.1 <+: path) (v : Value) :
    (mergeEnvIntoValue lower (before ++ (name, raw) :: after) v).2 =
      setNested (mergeEnvIntoValue lower (before ++ after) v).2 path raw := by
  have happend :
      overrides lower (before ++ after) = overrides lower before ++ overrides lower after :=
    List.filterMap_append
  rw [merge_eq_assign, merge_eq_assign, overrides_insert hname, happend, assign_append,
    assign_append]
  refine setNested_telling.assign_last (envPath_ne_nil hname) overrides_ne_nil (fun e he => ?_) raw
  exact hother e (happend ▸ List.mem_append_right _ he)

theorem not_blocked_merge {lower : String → String} (hp : path ≠ [])
    (hother : ∀ e ∈ overrides lower vars, ¬ e.1 <+: path) (hv : ¬ Blocked v path) :
    ¬ Blocked (mergeEnvIntoValue lower vars v).2 path := by
  rw [← ignores_iff_blocked hp] at hv ⊢
  exact setNested_telling.reaches_assign hp overrides_ne_nil
    (fun ⟨e, he, hshort, _⟩ => hother e he hshort) hv

theorem lookup_insert {lower : String → String} (hname : envPath lower name = some path)
    {key : String} (hkey : envPath lower key = none) :
    (before ++ (name, raw) :: after).lookup key = (before ++ after).lookup key := by
  have hne : key ≠ name := by
    rintro rfl
    rw [hkey] at hname
    cases hname
  induction before with
  | nil => rw [List.nil_append, List.nil_append, List.lookup_cons, beq_false_of_ne hne]
  | cons x before ih =>
    obtain ⟨k, v⟩ := x
    rw [List.cons_append, List.cons_append, List.lookup_cons, List.lookup_cons, ih]

theorem hostnameOrUuid_insert {lower : String → String} (hname : envPath lower name = some path)
    (uuid : String) :
    hostnameOrUuid ⟨before ++ (name, raw) :: after, uuid⟩ =
      hostnameOrUuid ⟨before ++ after, uuid⟩ := by
  have hhost : envPath lower "HOSTNAME" = none := rfl
  have hpod : envPath lower "POD_NAME" = none := rfl
  simp only [hostnameOrUuid, lookup_insert hname hhost, lookup_insert hname hpod]

theorem configTy_sound : configTy.Sound := Ty.record_sound _

theorem loadWithEnv_text {uuid location content : String} {base : RinfraConfig}
    (hpath : configTy.at? path = some .string) (hname : envPath serde.lower name = some path)
    (hraw : parseEnvValue raw = .string raw)
    (hother : ∀ e ∈ overrides serde.lower (before ++ after), ¬ e.1 <+: path)
    (hv : serde.yamlValue content = .ok v) (hblocked : ¬ Blocked v path)
    (h : loadWithEnv serde ⟨before ++ after, uuid⟩ location (.ok content) = .ok base) :
    ∃ config, loadWithEnv serde ⟨before ++ (name, raw) :: after, uuid⟩ location (.ok content) =
      .ok config ∧ Overridden path raw base.settings config.settings := by
  have hp : path ≠ [] := envPath_ne_nil hname
  obtain ⟨v', hv', hbase⟩ := loadWithEnv_eq_ok.mp h
  obtain rfl : v = v' := Except.ok.inj (hv.symm.trans hv')
  obtain ⟨hread, hempty⟩ := fromValue_eq_ok.mp hbase
  obtain ⟨w', hw', hover⟩ := read_setNested configTy_sound hpath hraw
    (not_blocked_merge hp hother hblocked) hread hp
  refine ⟨⟨"", w'⟩, loadWithEnv_eq_ok.mpr ⟨v, hv, fromValue_eq_ok.mpr ⟨?_, rfl⟩⟩, hover⟩
  rw [merge_insert hname hother, hostnameOrUuid_insert hname]
  exact hw'

def RinfraConfig.Typed (config : RinfraConfig) : Prop :=
  ∃ draw, read draw configTy config.settings = some config.settings

theorem RinfraConfig.Typed.not_blocked {config : RinfraConfig} (h : config.Typed) {ty' : Ty}
    (hpath : configTy.at? path = some ty') : ¬ Blocked config.settings path :=
  not_blocked_of_read configTy_sound h.choose_spec hpath

theorem applyEnvOverrides_text {uuid : String} {config base : RinfraConfig} (hc : config.Typed)
    (hpath : configTy.at? path = some .string) (hname : envPath serde.lower name = some path)
    (hraw : parseEnvValue raw = .string raw)
    (hother : ∀ e ∈ overrides serde.lower (before ++ after), ¬ e.1 <+: path)
    (h : fromValue serde ⟨before ++ after, uuid⟩
      (mergeEnvIntoValue serde.lower (before ++ after) config.settings).2 = .ok base) :
    Overridden path raw (applyEnvOverrides serde ⟨before ++ after, uuid⟩ config).settings
      (applyEnvOverrides serde ⟨before ++ (name, raw) :: after, uuid⟩ config).settings := by
  have hp : path ≠ [] := envPath_ne_nil hname
  obtain ⟨hread, -⟩ := fromValue_eq_ok.mp h
  have hbase : (applyEnvOverrides serde ⟨before ++ after, uuid⟩ config).settings =
      base.settings := by
    by_cases hvars : overrides serde.lower (before ++ after) = []
    · rw [applyEnvOverrides_idle hvars]
      obtain ⟨draw, hdraw⟩ := hc
      rw [merge_eq_assign, hvars] at hread
      exact Option.some.inj ((read_again configTy_sound hdraw).symm.trans hread)
    · rw [applyEnvOverrides_of_ok hvars h]
  obtain ⟨w', hw', hover⟩ := read_setNested configTy_sound hpath hraw
    (not_blocked_merge hp hother (hc.not_blocked hpath)) hread hp
  have hvars : overrides serde.lower (before ++ (name, raw) :: after) ≠ [] := by
    simp [overrides_insert hname]
  have hok : fromValue serde ⟨before ++ (name, raw) :: after, uuid⟩
      (mergeEnvIntoValue serde.lower (before ++ (name, raw) :: after) config.settings).2 =
      .ok ⟨"", w'⟩ := by
    refine fromValue_eq_ok.mpr ⟨?_, rfl⟩
    rw [merge_insert hname hother, hostnameOrUuid_insert hname]
    exact hw'
  rw [hbase, applyEnvOverrides_of_ok hvars hok]
  exact hover

/-- An override of a text is exact, in a file and in a configuration: where the text is
not taken for a bool or a number, where nothing but sections is on the way in the file,
and where no other variable names the setting or a section around it. -/
theorem env_text_exact {uuid : String} (hpath : configTy.at? path = some .string)
    (hname : envPath serde.lower name = some path) (hraw : parseEnvValue raw = .string raw)
    (hother : ∀ e ∈ overrides serde.lower (before ++ after), ¬ e.1 <+: path) :
    (∀ location content v base, serde.yamlValue content = .ok v → ¬ Blocked v path →
      loadWithEnv serde ⟨before ++ after, uuid⟩ location (.ok content) = .ok base →
      ∃ config, loadWithEnv serde ⟨before ++ (name, raw) :: after, uuid⟩ location (.ok content) =
        .ok config ∧ Overridden path raw base.settings config.settings) ∧
    ∀ config base : RinfraConfig, config.Typed →
      fromValue serde ⟨before ++ after, uuid⟩
        (mergeEnvIntoValue serde.lower (before ++ after) config.settings).2 = .ok base →
      Overridden path raw (applyEnvOverrides serde ⟨before ++ after, uuid⟩ config).settings
        (applyEnvOverrides serde ⟨before ++ (name, raw) :: after, uuid⟩ config).settings :=
  ⟨fun _ _ _ _ hv hblocked h => loadWithEnv_text hpath hname hraw hother hv hblocked h,
    fun _ _ hc h => applyEnvOverrides_text hc hpath hname hraw hother h⟩

/-- `{}` -/
def emptyFile : String := "\x7b\x7d"

def emptyFiles : Serde where
  yamlValue content := if content = emptyFile then .ok (.object []) else .error "EOF"
  yamlConfig draw content :=
    if content = emptyFile then .ok (RinfraConfig.default draw).settings else .error "EOF"
  mismatch _ := ""
  lower := asciiLower

theorem RinfraConfig.default_typed (draw : Draw) : (RinfraConfig.default draw).Typed :=
  ⟨draw, read_again configTy_sound (RinfraConfig.read_default draw)⟩

theorem env_text_exact_name :
    (∃ config, loadWithEnv emptyFiles ⟨[("RINFRA_APP__NAME", "prod")], ""⟩ "rinfra.yaml"
        (.ok emptyFile) =
      .ok config ∧ Overridden ["app", "name"] "prod" (RinfraConfig.default "").settings
        config.settings) ∧
    Overridden ["app", "name"] "prod"
      (applyEnvOverrides emptyFiles ⟨[], ""⟩ (.default "")).settings
      (applyEnvOverrides emptyFiles ⟨[("RINFRA_APP__NAME", "prod")], ""⟩
        (.default "")).settings := by
  have hread : fromValue emptyFiles ⟨[], ""⟩ (.object []) = .ok (.default "") :=
    fromValue_eq_ok.mpr ⟨RinfraConfig.read_default "", rfl⟩
  have hagain : fromValue emptyFiles ⟨[], ""⟩ (RinfraConfig.default "").settings =
      .ok (.default "") :=
    fromValue_eq_ok.mpr ⟨read_again configTy_sound (RinfraConfig.read_default ""), rfl⟩
  have hpath : configTy.at? ["app", "name"] = some .string := rfl
  have hname : envPath emptyFiles.lower "RINFRA_APP__NAME" = some ["app", "name"] := by
    decide +kernel
  have hraw : parseEnvValue "prod" = .string "prod" := rfl
  have hother : ∀ e ∈ overrides emptyFiles.lower ([] ++ []), ¬ e.1 <+: ["app", "name"] := by
    simp [overrides]
  exact ⟨(env_text_exact hpath hname hraw hother).1 "rinfra.yaml" emptyFile _ _ rfl
      not_blocked_empty (loadWithEnv_eq_ok.mpr ⟨_, rfl, hread⟩),
    (env_text_exact hpath hname hraw hother).2 _ _ (RinfraConfig.default_typed "") hagain⟩

def digitsToken : Process := ⟨[("RINFRA_PLUGINS__CLUSTER__CLUSTER_TOKEN", "123456")], ""⟩

/-- It is taken for a number: the file is refused, and the configuration does not get it. -/
theorem digits_refused :
    configTy.at? ["plugins", "cluster", "cluster_token"] = some .string ∧
    (loadWithEnv emptyFiles ⟨[], ""⟩ "rinfra.yaml" (.ok emptyFile)).toBool = true ∧
    (loadWithEnv emptyFiles digitsToken "rinfra.yaml" (.ok emptyFile)).toBool = false ∧
    ((applyEnvOverrides emptyFiles digitsToken (.default "")).settings.at?
      ["plugins", "cluster", "cluster_token"]).bind Value.asStr = some "" :=
  ⟨rfl, by decide +kernel⟩

end Rinfra.Config
