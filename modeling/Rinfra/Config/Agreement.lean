import Rinfra.Config.Simulation
import Rinfra.Config.Strings

/-!
# The two ways of overriding

Overrides of a file's tree and overrides of the configuration that the file
gives come to the same, where nothing depends on what the file leaves out: the
free part is null in the configuration, and nothing goes below a null; and a
consumer without a name is given a new one by each reading.
-/

namespace Rinfra.Config

open Rinfra.Lib Rinfra.Lib.Json Rinfra.Lib.Overriding

def business : List String := ["business"]

def consumerName : List String := ["plugins", "mq", "redis_streams", "consumer_name"]

theorem configTy_fits : Default.Fits configTy .empty := trivial

theorem configTy_shape :
    configTy.flat ∧ configTy.steady (some consumerName) ∧ configTy.frees = [business] := by
  decide +kernel

theorem configTy_flat : configTy.flat := configTy_shape.1

theorem configTy_steady : configTy.steady (some consumerName) := configTy_shape.2.1

theorem configTy_frees : configTy.frees = [business] := configTy_shape.2.2

theorem configTy_business : configTy.fieldAt? business = some (.value .null, .free) := rfl

theorem configTy_consumerName : configTy.fieldAt? consumerName = some (.drawn, .string) := rfl

variable {serde : Serde} {vars : List (String × String)} {draw draw' : Draw} {v w z : Value}
  {l : List (List String × String)} {hole : Option (List String)} {path : List String}

-- ---------------------------------------------------------------------------
-- Runs
-- ---------------------------------------------------------------------------

theorem not_opens (h : (v.at? business).isSome ∨ path = business ∨ ¬ business <+: path) :
    ¬ Opens configTy (some v) path := by
  intro ho
  obtain ⟨q, r, rfl, hr, hat, hnone⟩ := ho.exists_free
  have hq : q = business := List.mem_singleton.mp (configTy_frees ▸ Ty.mem_frees hat)
  subst hq
  rw [Option.bind_some] at hnone
  rcases h with h | h | h
  · rw [hnone] at h
    cases h
  · exact hr (List.append_right_eq_self.mp h)
  · exact h (List.prefix_append _ _)

theorem inStep_setNested (hp : path ≠ []) {raw : String}
    (h : InStep draw configTy .empty hole (some v) w)
    (hbase : (v.at? business).isSome ∨ path = business ∨ ¬ business <+: path)
    {hole' : Option (List String)} (hfill : Filled hole hole' fun hole => hole = path) :
    InStep draw configTy .empty hole' (some (setNested v path raw)) (setNested w path raw) := by
  have hstep : InStep draw configTy .empty hole' (some (below (some v) path raw))
      (below (some w) path raw) := inStep_below configTy_flat h (not_opens hbase) hfill
  simpa only [below, if_neg hp, Option.getD_some] using hstep

theorem inStep_assign (hl : ∀ e ∈ l, e.1 ≠ []) (h : InStep draw configTy .empty hole (some v) w)
    (hbase : (v.at? business).isSome ∨ ∀ e ∈ l, ¬ business <+: e.1) :
    InStep draw configTy .empty hole (some (assign setNested v l)) (assign setNested w l) := by
  induction l generalizing v w with
  | nil => exact h
  | cons e l ih =>
    refine ih (fun e he => hl e (List.mem_cons_of_mem _ he)) (inStep_setNested
      (hl e List.mem_cons_self) h ?_ (.inl rfl)) ?_
    · exact hbase.imp_right fun hnot => .inr (hnot e List.mem_cons_self)
    · exact hbase.imp (fun hv => at?_setNested_isSome hv e.1 e.2)
        fun hnot e he => hnot e (List.mem_cons_of_mem _ he)

-- ---------------------------------------------------------------------------
-- What is filled in
-- ---------------------------------------------------------------------------

/-- The free part is in the file, or is replaced as a whole, or no variable goes there. -/
def Based (v : Value) (l : List (List String × String)) : Prop :=
  (v.at? business).isSome ∨ (∃ e ∈ l, e.1 = business) ∨ ∀ e ∈ l, ¬ business <+: e.1

/-- The consumer has its name from the file or from a variable, or no new one is drawn. -/
def Named (draw draw' : Draw) (v : Value) (l : List (List String × String)) : Prop :=
  (v.at? consumerName).isSome ∨ (∃ e ∈ l, e.1 = consumerName) ∨ draw = draw'

theorem isObject_of_parsed (hparsed : Parsed draw' configTy v w)
    (hread : read draw configTy (assign setNested v l) = some z) : v.IsObject := by
  obtain ⟨fields, -, -, hv, -⟩ := hparsed
  rcases hv with rfl | ⟨rfl, -⟩
  · trivial
  · rw [assign_leaf id] at hread
    cases hread

theorem inStep_based (hobj : v.IsObject) (hl : ∀ e ∈ l, e.1 ≠ []) (hbased : Based v l)
    (h : InStep draw configTy .empty hole (some v) w) :
    InStep draw configTy .empty hole (some (assign setNested v l)) (assign setNested w l) := by
  rcases hbased with hv | hmem | hnot
  · exact inStep_assign hl h (.inl hv)
  · have hp : business ≠ [] := List.cons_ne_nil _ _
    rw [← setNested_telling.assign_put (t := v) hp hl hmem "",
      ← setNested_telling.assign_put (t := w) hp hl hmem ""]
    refine inStep_assign hl (inStep_setNested hp h (.inr (.inl rfl)) (.inl rfl)) (.inl ?_)
    rcases v.object_or_leaf with ⟨fields, rfl⟩ | hv
    · simp [business, setNested, Value.at?, Value.get?]
    · exact absurd hobj hv
  · exact inStep_assign hl h (.inr hnot)

/-- The trees after all of the overrides; a name that is set anyway fills the hole. -/
theorem inStep_named (hobj : v.IsObject) (hl : ∀ e ∈ l, e.1 ≠ []) (hbased : Based v l)
    (hnamed : Named draw draw' v l) (hparsed : Parsed draw' configTy v w) :
    InStep draw configTy .empty none (some (assign setNested v l)) (assign setNested w l) := by
  have hstart : ∀ {hole' : Option (List String)},
      Filled (some consumerName) hole' (fun path => (v.at? path).isSome ∨ draw = draw') →
      InStep draw configTy .empty hole' (some v) w :=
    fun hfill => inStep_parsed configTy_sound configTy_flat configTy_steady hfill hparsed
  rcases hnamed with hv | hmem | rfl
  · exact inStep_based hobj hl hbased (hstart (.inr ⟨rfl, _, rfl, .inl hv⟩))
  · have hp : consumerName ≠ [] := List.cons_ne_nil _ _
    have hother : ¬ business <+: consumerName := by decide
    have hput : InStep draw configTy .empty none (some (setNested v consumerName ""))
        (setNested w consumerName "") :=
      inStep_setNested hp (hstart (.inl rfl)) (.inr (.inr hother)) (.inr ⟨rfl, _, rfl, rfl⟩)
    have hbased' : Based (setNested v consumerName "") l :=
      hbased.imp_left fun hv => at?_setNested_isSome hv _ _
    rw [← setNested_telling.assign_put (t := v) hp hl hmem "",
      ← setNested_telling.assign_put (t := w) hp hl hmem ""]
    exact inStep_based (setNested_isObject hobj _ _) hl hbased' hput
  · exact inStep_based hobj hl hbased (hstart (.inr ⟨rfl, _, rfl, .inr rfl⟩))

/-- What the file gives with the overrides is what its configuration gives with them. -/
theorem read_agree (hl : ∀ e ∈ l, e.1 ≠ []) (hbased : Based v l) (hnamed : Named draw draw' v l)
    (hparsed : Parsed draw' configTy v w)
    (hread : read draw configTy (assign setNested v l) = some z) (draw'' : Draw) :
    read draw'' configTy (assign setNested w l) = some z :=
  inStep_read configTy_sound configTy_flat configTy_fits configTy_steady
    (inStep_named (isObject_of_parsed hparsed hread) hl hbased hnamed hparsed) hread

-- ---------------------------------------------------------------------------
-- What is not
-- ---------------------------------------------------------------------------

theorem prefix_business (h : path <+: business) : path = [] ∨ path = business := by
  rcases path with _ | ⟨key, rest⟩
  · exact .inl rfl
  · obtain ⟨rfl, hrest⟩ := List.cons_prefix_cons.mp h
    rw [List.prefix_nil.mp hrest]
    exact .inr rfl

theorem not_blocked_business (hv : v.IsObject) : ¬ Blocked v business := by
  rcases v.object_or_leaf with ⟨fields, rfl⟩ | hleaf
  · rw [business, blocked_object]
    rintro ⟨child, -, hb⟩
    exact not_blocked_nil child hb
  · exact absurd hv hleaf

theorem assign_isSome {key : String} (hv : (v.at? [key]).isSome)
    (l : List (List String × String)) : ((assign setNested v l).at? [key]).isSome := by
  induction l generalizing v with
  | nil => exact hv
  | cons e l ih => exact ih (at?_setNested_isSome hv e.1 e.2)

theorem business_opened (hv : v.IsObject) (hnone : v.at? business = none)
    (hother : ∀ e ∈ l, e.1 ≠ business) (hmem : ∃ e ∈ l, business <+: e.1) :
    ∃ u, (assign setNested v l).at? business = some u ∧ u.IsObject := by
  obtain ⟨e, he, key, hkey⟩ := hmem
  obtain ⟨l₁, l₂, rfl⟩ := List.append_of_mem he
  have hsome : ((assign setNested v (l₁ ++ e :: l₂)).at? business).isSome := by
    rw [assign_append]
    show ((assign setNested (setNested _ e.1 e.2) l₂).at? business).isSome
    refine assign_isSome ?_ l₂
    rcases (assign setNested v l₁).object_or_leaf with ⟨fields, hobj⟩ | hleaf
    · rw [hobj, ← hkey, business, List.singleton_append, setNested_object]
      simp [Value.at?, Value.get?]
    · exact absurd (assign_isObject hv l₁) hleaf
  obtain ⟨u, hu⟩ := Option.isSome_iff_exists.mp hsome
  refine ⟨u, hu, ?_⟩
  by_contra hleaf
  rw [leaf_assign_origin hleaf hother hu] at hnone
  cases hnone

theorem business_null (hl : ∀ e ∈ l, e.1 ≠ []) (hparsed : Parsed draw configTy v w)
    (hnone : v.at? business = none) (hother : ∀ e ∈ l, e.1 ≠ business) :
    w.at? business = some .null ∧ (assign setNested w l).at? business = some .null := by
  have hnull : w.at? business = some .null :=
    parsed_at configTy_sound configTy_business hparsed hnone
  refine ⟨hnull, leaf_assign_kept id (fun e he hp => ?_) hnull⟩
  exact (prefix_business hp).elim (hl e he) (hother e he)

/-- The configuration stays as it is, or is what its tree with the overrides reads. -/
def Applied (w r : Value) (l : List (List String × String)) : Prop :=
  r = w ∨ ∃ draw, read draw configTy (assign setNested w l) = some r

theorem based_of_agree (hl : ∀ e ∈ l, e.1 ≠ []) (hparsed : Parsed draw' configTy v w)
    (hread : read draw configTy (assign setNested v l) = some z) (hr : Applied w z l) :
    Based v l := by
  have hobj := isObject_of_parsed hparsed hread
  by_contra hnot
  simp only [Based, not_or, not_exists, not_and, not_forall, not_not, Option.not_isSome_iff_eq_none,
    exists_prop] at hnot
  obtain ⟨hnone, hother, hmem⟩ := hnot
  obtain ⟨u, hu, huobj⟩ := business_opened hobj hnone hother hmem
  obtain ⟨hnull, hnull'⟩ := business_null hl hparsed hnone hother
  have hz : z.at? business = some u := by
    rw [read_at configTy_sound configTy_business (not_blocked_business (assign_isObject hobj l))
      hread, hu]
    rfl
  have hz' : z.at? business = some .null := by
    rcases hr with rfl | ⟨draw, hr⟩
    · exact hnull
    · rw [read_at configTy_sound configTy_business
        (not_blocked_of_at? (by rw [hnull']; rfl)) hr, hnull']
      rfl
  cases hz.symm.trans hz'
  exact huobj

theorem named_of_agree (hl : ∀ e ∈ l, e.1 ≠ []) (hbased : Based v l)
    (hparsed : Parsed draw' configTy v w)
    (hread : read draw configTy (assign setNested v l) = some z) (hr : Applied w z l) :
    Named draw draw' v l := by
  have hobj := isObject_of_parsed hparsed hread
  by_contra hnot
  simp only [Named, not_or, not_exists, not_and, Option.not_isSome_iff_eq_none] at hnot
  obtain ⟨hnone, hother, hdraw⟩ := hnot
  have hw : w.at? consumerName = some (.string draw') :=
    parsed_at configTy_sound configTy_consumerName hparsed hnone
  -- the overrides leave the drawn name as it is
  have hstep : InStep draw configTy .empty (some consumerName) (some (assign setNested v l))
      (assign setNested w l) :=
    inStep_based hobj hl hbased
      (inStep_parsed configTy_sound configTy_flat configTy_steady (.inl rfl) hparsed)
  obtain ⟨hclear, u, hu, hleaf⟩ := inStep_at configTy_sound configTy_fits configTy_consumerName
    rfl hstep (by rw [readField, hread]; rfl)
  have hu' : (assign setNested w l).at? consumerName = some (.string draw') := by
    rw [hu, ← hw, leaf_assign_origin hleaf hother hu]
  have hz : z.at? consumerName = some (.string draw') := by
    rcases hr with rfl | ⟨draw, hr⟩
    · exact hw
    · rw [read_at configTy_sound configTy_consumerName (not_blocked_of_at? (by rw [hu']; rfl)) hr,
        hu']
      rfl
  rw [read_at configTy_sound configTy_consumerName hclear hread] at hz
  cases hx : (assign setNested v l).at? consumerName with
  | none =>
    rw [Option.getD_some, hx] at hz
    cases hz
    exact hdraw rfl
  | some x =>
    rw [Option.getD_some, hx] at hz
    by_cases hxobj : x.IsObject
    · rcases x.object_or_leaf with ⟨fields, rfl⟩ | hxleaf
      · cases hz
      · exact hxleaf hxobj
    · rw [leaf_assign_origin hxobj hother hx] at hnone
      cases hnone

-- ---------------------------------------------------------------------------
-- The two ways
-- ---------------------------------------------------------------------------

/-- What the file is parsed to, by itself and as a tree. -/
def Serde.Lawful (serde : Serde) : Prop :=
  ∀ draw content v w, serde.yamlValue content = .ok v → serde.yamlConfig draw content = .ok w →
    Parsed draw configTy v w

/-- The process knows the name of its host. -/
def HostKnown (vars : List (String × String)) : Prop :=
  (vars.lookup "HOSTNAME").isSome ∨ (vars.lookup "POD_NAME").isSome

theorem hostnameOrUuid_eq_iff {uuid uuid' : String} (hne : uuid ≠ uuid') :
    hostnameOrUuid ⟨vars, uuid⟩ = hostnameOrUuid ⟨vars, uuid'⟩ ↔ HostKnown vars := by
  unfold hostnameOrUuid HostKnown
  cases vars.lookup "HOSTNAME" <;> cases vars.lookup "POD_NAME" <;> simp [hne]

/-- Nothing depends on what the file leaves out. -/
structure Settled (serde : Serde) (vars : List (String × String)) (v : Value) : Prop where
  business : (v.at? business).isSome ∨ (∃ e ∈ overrides serde.lower vars, e.1 = business) ∨
    ∀ e ∈ overrides serde.lower vars, ¬ business <+: e.1
  consumer : (v.at? consumerName).isSome ∨
    (∃ e ∈ overrides serde.lower vars, e.1 = consumerName) ∨ HostKnown vars

theorem applied_of_apply {process : Process} {config : RinfraConfig} :
    Applied config.settings (applyEnvOverrides serde process config).settings
      (overrides serde.lower process.vars) := by
  by_cases hvars : overrides serde.lower process.vars = []
  · exact .inl (by rw [applyEnvOverrides_idle hvars])
  · cases h : fromValue serde process
      (mergeEnvIntoValue serde.lower process.vars config.settings).2 with
    | error e => exact .inl (by rw [applyEnvOverrides_of_error h])
    | ok updated =>
      refine .inr ⟨hostnameOrUuid process, ?_⟩
      rw [applyEnvOverrides_of_ok hvars h]
      exact (fromValue_eq_ok.mp h).1

theorem loadFromFile_eq_ok {process : Process} {location content : String} {config : RinfraConfig} :
    loadFromFile serde process location (.ok content) = .ok config ↔
      serde.yamlConfig (hostnameOrUuid process) content = .ok config.settings ∧
        config.configPath = "" := by
  obtain ⟨configPath, settings⟩ := config
  cases h : serde.yamlConfig (hostnameOrUuid process) content <;>
    simp [loadFromFile, readToString, loadFromStr, Except.mapError, bind, Except.bind, h, eq_comm,
      and_comm]

/-- A file that loads both ways gives the same configuration both ways exactly when
nothing depends on what it leaves out. -/
theorem loads_agree_iff (hlaw : serde.Lawful) {location content uuid uuid' uuid'' : String}
    {config config' : RinfraConfig} (hne : uuid ≠ uuid') (hv : serde.yamlValue content = .ok v)
    (hfile : loadFromFile serde ⟨vars, uuid'⟩ location (.ok content) = .ok config)
    (henv : loadWithEnv serde ⟨vars, uuid⟩ location (.ok content) = .ok config') :
    applyEnvOverrides serde ⟨vars, uuid''⟩ config = config' ↔ Settled serde vars v := by
  have hl : ∀ e ∈ overrides serde.lower vars, e.1 ≠ [] := overrides_ne_nil
  obtain ⟨hw, hempty⟩ := loadFromFile_eq_ok.mp hfile
  obtain ⟨v', hv', hvalue⟩ := loadWithEnv_eq_ok.mp henv
  obtain rfl : v = v' := Except.ok.inj (hv.symm.trans hv')
  obtain ⟨hread, hempty'⟩ := fromValue_eq_ok.mp hvalue
  have hparsed := hlaw _ _ _ _ hv hw
  constructor
  · rintro rfl
    have happlied : Applied config.settings
        (applyEnvOverrides serde ⟨vars, uuid''⟩ config).settings (overrides serde.lower vars) :=
      applied_of_apply
    have hbased := based_of_agree hl hparsed hread happlied
    exact ⟨hbased, (named_of_agree hl hbased hparsed hread happlied).imp_right
      (Or.imp_right (hostnameOrUuid_eq_iff hne).mp)⟩
  · rintro ⟨hbased, hnamed⟩
    have hnamed : Named _ _ v _ :=
      hnamed.imp_right (Or.imp_right (hostnameOrUuid_eq_iff hne).mpr)
    by_cases hvars : overrides serde.lower vars = []
    · rw [applyEnvOverrides_idle hvars]
      have hgiven : (v.at? consumerName).isSome ∨
          hostnameOrUuid ⟨vars, uuid⟩ = hostnameOrUuid ⟨vars, uuid'⟩ := by
        simpa [Named, hvars] using hnamed
      have hsame : config.settings = config'.settings := by
        rw [merge_eq_assign, hvars] at hread
        exact parsed_read configTy_sound configTy_flat configTy_steady
          (.inr ⟨rfl, _, rfl, hgiven⟩) hparsed hread
      obtain ⟨configPath, settings⟩ := config
      obtain ⟨configPath', settings'⟩ := config'
      simp only [RinfraConfig.mk.injEq]
      exact ⟨hempty.trans hempty'.symm, hsame⟩
    · refine applyEnvOverrides_of_ok hvars (fromValue_eq_ok.mpr ⟨?_, hempty'⟩)
      exact read_agree hl hbased hnamed hparsed hread _

theorem parsed_empty {ty : Ty} (hty : ty.IsStruct) (h : read draw ty (.object []) = some w) :
    Parsed draw ty (.object []) w := by
  cases ty with
  | struct names dflt field =>
    obtain ⟨_, settings, ⟨⟩, hsettings, rfl⟩ := read_struct_eq_some.mp h
    exact ⟨[], _, settings, .inl rfl, hsettings, rfl, fun name _ => rfl⟩
  | _ => cases hty

theorem emptyFiles_lawful : emptyFiles.Lawful := by
  intro draw content v w hv hw
  by_cases hcontent : content = emptyFile
  · simp only [emptyFiles, if_pos hcontent] at hv hw
    cases hv
    cases hw
    exact parsed_empty trivial (RinfraConfig.read_default draw)
  · simp only [emptyFiles, if_neg hcontent] at hv
    cases hv

theorem loadFromFile_emptyFiles {process : Process} {location host : String}
    (h : hostnameOrUuid process = host) :
    loadFromFile emptyFiles process location (.ok emptyFile) = .ok (.default host) :=
  loadFromFile_eq_ok.mpr ⟨by rw [h]; rfl, rfl⟩

/-- A name from the environment, on a host with a name. -/
def namedApp : List (String × String) := [("HOSTNAME", "node"), ("RINFRA_APP__NAME", "prod")]

theorem loads_agree_iff_namedApp : ∃ config config',
    loadFromFile emptyFiles ⟨namedApp, "b"⟩ "rinfra.yaml" (.ok emptyFile) = .ok config ∧
    loadWithEnv emptyFiles ⟨namedApp, "a"⟩ "rinfra.yaml" (.ok emptyFile) = .ok config' ∧
    applyEnvOverrides emptyFiles ⟨namedApp, "c"⟩ config = config' := by
  have hfile : loadFromFile emptyFiles ⟨namedApp, "b"⟩ "rinfra.yaml" (.ok emptyFile) =
      .ok (.default "node") :=
    loadFromFile_emptyFiles (by decide)
  have hok :
      (loadWithEnv emptyFiles ⟨namedApp, "a"⟩ "rinfra.yaml" (.ok emptyFile)).toBool = true := by
    decide +kernel
  cases henv : loadWithEnv emptyFiles ⟨namedApp, "a"⟩ "rinfra.yaml" (.ok emptyFile) with
  | error e =>
    rw [henv] at hok
    cases hok
  | ok config' =>
    refine ⟨_, config', hfile, rfl, (loads_agree_iff emptyFiles_lawful (by decide) rfl hfile
      henv).mpr ⟨.inr (.inr ?_), .inr (.inr (.inl rfl))⟩⟩
    decide +kernel

/-- A variable below the free part, which the file leaves out. -/
def businessVars : List (String × String) := [("HOSTNAME", "node"), ("RINFRA_BUSINESS__X", "1")]

theorem business_lost :
    loadFromFile emptyFiles ⟨businessVars, ""⟩ "rinfra.yaml" (.ok emptyFile) =
      .ok (.default "node") ∧
    ∃ config', loadWithEnv emptyFiles ⟨businessVars, ""⟩ "rinfra.yaml" (.ok emptyFile) =
        .ok config' ∧
      applyEnvOverrides emptyFiles ⟨businessVars, ""⟩ (.default "node") ≠ config' := by
  refine ⟨loadFromFile_emptyFiles (by decide), ?_⟩
  have hlost : ((applyEnvOverrides emptyFiles ⟨businessVars, ""⟩ (.default "node")).settings.at?
      ["business", "x"]).isSome = false := by
    decide +kernel
  have hthere : (loadWithEnv emptyFiles ⟨businessVars, ""⟩ "rinfra.yaml"
      (.ok emptyFile)).toOption.any
        (fun config => (config.settings.at? ["business", "x"]).isSome) = true := by
    decide +kernel
  cases henv : loadWithEnv emptyFiles ⟨businessVars, ""⟩ "rinfra.yaml" (.ok emptyFile) with
  | error e =>
    rw [henv] at hthere
    cases hthere
  | ok config' =>
    refine ⟨config', rfl, ?_⟩
    rintro rfl
    rw [henv, Except.toOption, Option.any_some, hlost] at hthere
    cases hthere

end Rinfra.Config
