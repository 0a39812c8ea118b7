import Rinfra.Codecs.Lossless
import Rinfra.Lib.Positions
import Rinfra.Lib.Transition

/-!
# The codec registry

Codecs are found by their names and by their content types, through two indexes of one
list. `register` refuses a name that is taken; a content type that is taken it makes
point at the new codec, and the one that had it is no longer found by it.
-/

namespace Rinfra.Codecs

open Lib

/-- A `HashMap` is given by what it has for each key. -/
structure CodecRegistry where
  codecs : List Codec
  nameIndex : String → Option Nat
  contentTypeIndex : String → Option Nat

namespace CodecRegistry

def new : CodecRegistry := ⟨[], fun _ => none, fun _ => none⟩

def register (reg : CodecRegistry) (codec : Codec) : Except AppError Unit × CodecRegistry :=
  let name := codec.name
  if (reg.nameIndex name).isSome then
    (.error ⟨.pluginAlreadyRegistered, s!"codec '{name}' is already registered"⟩, reg)
  else
    let ct := codec.contentType
    let idx := reg.codecs.length
    (.ok (), {
      nameIndex := Function.update reg.nameIndex name (some idx)
      contentTypeIndex := Function.update reg.contentTypeIndex ct (some idx)
      codecs := reg.codecs ++ [codec] })

def codecAt (reg : CodecRegistry) : Option Nat → Outcome (Option Codec)
  | none => .ok none
  | some idx =>
    match reg.codecs[idx]? with
    | some codec => .ok (some codec)
    | none => .panicked

def getByName (reg : CodecRegistry) (name : String) : Outcome (Option Codec) :=
  reg.codecAt (reg.nameIndex name)

def getByContentType (reg : CodecRegistry) (ct : String) : Outcome (Option Codec) :=
  reg.codecAt (reg.contentTypeIndex ct)

def listNames (reg : CodecRegistry) : List String := reg.codecs.map Codec.name

end CodecRegistry

/-- A registry with the codecs whose registration returned `Ok`. -/
structure Session where
  registry : CodecRegistry
  registered : List Codec

namespace Session

def new : Session := ⟨.new, []⟩

def step (s : Session) (codec : Codec) : Option Session :=
  match s.registry.register codec with
  | (.ok (), registry) => some ⟨registry, s.registered ++ [codec]⟩
  | (.error _, registry) => some ⟨registry, s.registered⟩

-- ---------------------------------------------------------------------------
-- Consistency
-- ---------------------------------------------------------------------------

/-- Positions are in the list, codecs are found by their names, what is found by a
content type has it, and a refused call changes nothing. -/
structure Indexed (s : Session) : Prop where
  names : ∀ name, ∀ i ∈ s.registry.nameIndex name, i < s.registry.codecs.length
  contentTypes : ∀ ct, ∀ i ∈ s.registry.contentTypeIndex ct, i < s.registry.codecs.length
  byName : ∀ codec ∈ s.registered, s.registry.getByName codec.name = .ok (some codec)
  returned : ∀ ct, ∃ found, s.registry.getByContentType ct = .ok found ∧
    ∀ codec ∈ found, codec.contentType = ct
  refused : ∀ codec e registry, s.registry.register codec = (.error e, registry) →
    registry = s.registry

/-- Codecs are found by their content types as well. -/
structure Consistent (s : Session) : Prop extends s.Indexed where
  byContentType : ∀ codec ∈ s.registered,
    s.registry.getByContentType codec.contentType = .ok (some codec)

/-- The name is taken, or the content type is not. -/
def Unshadowing (s : Session) (codec : Codec) : Prop :=
  (∃ other ∈ s.registered, other.name = codec.name) ∨
    ∀ other ∈ s.registered, other.contentType ≠ codec.contentType

structure Inv (s : Session) : Prop where
  registered : s.registered = s.registry.codecs
  names : Points Codec.name s.registry.nameIndex s.registry.codecs
  contentTypes : Points Codec.contentType s.registry.contentTypeIndex s.registry.codecs
  byName : ∀ codec ∈ s.registry.codecs,
    pointed s.registry.nameIndex s.registry.codecs codec.name = some codec

inductive Goes (s : Session) (codec : Codec) : Session → Prop
  | refused (htaken : (s.registry.nameIndex codec.name).isSome) : Goes s codec s
  | registered (hfree : s.registry.nameIndex codec.name = none) :
      Goes s codec ⟨⟨s.registry.codecs ++ [codec],
        pushIndex Codec.name s.registry.nameIndex s.registry.codecs codec,
        pushIndex Codec.contentType s.registry.contentTypeIndex s.registry.codecs codec⟩,
        s.registered ++ [codec]⟩

section
variable {s s' : Session} {codec : Codec}

theorem goes (h : s.step codec = some s') : Goes s codec s' := by
  unfold step CodecRegistry.register at h
  by_cases htaken : (s.registry.nameIndex codec.name).isSome
  · simp only [htaken, ↓reduceIte] at h
    cases h
    exact .refused htaken
  · simp only [htaken, Bool.false_eq_true, ↓reduceIte] at h
    cases h
    exact .registered (Option.not_isSome_iff_eq_none.mp htaken)

theorem codecAt_eq_some {reg : CodecRegistry} {index : String → Option Nat} {key : String} :
    reg.codecAt (index key) = .ok (some codec) ↔ pointed index reg.codecs key = some codec := by
  unfold CodecRegistry.codecAt pointed
  split
  · rename_i hi
    simp [hi]
  · rename_i i hi
    rw [hi, Option.bind_some]
    split
    · rename_i c hc
      simp [hc]
    · rename_i hc
      simp [hc]

theorem Inv.taken_iff (hi : s.Inv) :
    (s.registry.nameIndex codec.name).isSome ↔ ∃ other ∈ s.registered, other.name = codec.name := by
  rw [hi.names.isSome_iff, hi.registered]
  constructor
  · rintro ⟨other, hother⟩
    obtain ⟨i, -, hget⟩ := Option.bind_eq_some_iff.mp hother
    exact ⟨other, List.mem_of_getElem? hget, hi.names.key_eq hother⟩
  · rintro ⟨other, hmem, hname⟩
    exact ⟨other, hname ▸ hi.byName other hmem⟩

theorem Inv.new : Session.new.Inv where
  registered := rfl
  names := .nil
  contentTypes := .nil
  byName _ h := nomatch h

theorem Inv.step (hi : s.Inv) (h : s.step codec = some s') : s'.Inv := by
  cases goes h with
  | refused => exact hi
  | registered hfree =>
    refine ⟨congrArg (· ++ [codec]) hi.registered, hi.names.push codec, hi.contentTypes.push codec,
      fun other hother => ?_⟩
    rcases List.mem_append.mp hother with hold | hnew
    · have hne : other.name ≠ codec.name := by
        intro hname
        have hfound := hi.byName other hold
        rw [hname, pointed, hfree] at hfound
        cases hfound
      exact (hi.names.pointed_push_of_ne hne).trans (hi.byName other hold)
    · obtain rfl := List.mem_singleton.mp hnew
      exact pointed_push_self

theorem Inv.indexed (hi : s.Inv) : s.Indexed where
  names _ _ hmem := hi.names.lt_length hmem
  contentTypes _ _ hmem := hi.contentTypes.lt_length hmem
  byName codec hcodec := codecAt_eq_some.mpr (hi.byName codec (hi.registered ▸ hcodec))
  returned ct := by
    cases hct : s.registry.contentTypeIndex ct with
    | none => exact ⟨none, by rw [CodecRegistry.getByContentType, hct]; rfl, fun _ h => nomatch h⟩
    | some i =>
      obtain ⟨codec, hcodec⟩ :=
        hi.contentTypes.isSome_iff.mp (Option.isSome_iff_exists.mpr ⟨i, hct⟩)
      refine ⟨some codec, codecAt_eq_some.mpr hcodec, fun other hother => ?_⟩
      obtain rfl := Option.some.inj hother
      exact hi.contentTypes.key_eq hcodec
  refused codec e registry h := by
    unfold CodecRegistry.register at h
    dsimp only at h
    split at h <;> cases h
    rfl

/-- What a call needs to leave every codec to be found by its content type. -/
theorem consistent_step_iff (hi : s.Inv) (hc : s.Consistent) (h : s.step codec = some s') :
    s'.Consistent ↔ s.Unshadowing codec := by
  have hindexed := (hi.step h).indexed
  cases goes h with
  | refused htaken => exact iff_of_true hc (.inl (hi.taken_iff.mp htaken))
  | registered hfree =>
    have hnew : ¬ ∃ other ∈ s.registered, other.name = codec.name := by
      rw [← hi.taken_iff, hfree]
      exact Bool.false_ne_true
    have hne : ∀ other ∈ s.registered, other ≠ codec :=
      fun other hother heq => hnew ⟨other, hother, congrArg Codec.name heq⟩
    have hfound : ∀ other ∈ s.registered,
        pointed s.registry.contentTypeIndex s.registry.codecs other.contentType = some other :=
      fun other hother => codecAt_eq_some.mp (hc.byContentType other hother)
    constructor
    · intro hc'
      refine .inr fun other hother => ?_
      have hstill := codecAt_eq_some.mp (hc'.byContentType other (List.mem_append_left _ hother))
      exact (hi.contentTypes.pointed_push_iff (hne other hother) (hfound other hother)).mp hstill
    · rintro (htaken | hfresh)
      · exact absurd htaken hnew
      · refine ⟨hindexed, fun other hother => codecAt_eq_some.mpr ?_⟩
        rcases List.mem_append.mp hother with hold | hlast
        · exact (hi.contentTypes.pointed_push_iff (hne other hold) (hfound other hold)).mpr
            (hfresh other hold)
        · obtain rfl := List.mem_singleton.mp hlast
          exact pointed_push_self

theorem Consistent.new : Session.new.Consistent :=
  { Inv.new.indexed with byContentType := fun _ h => nomatch h }

end

/-- The indexes are in order whatever is registered, and every codec is found by its
content type too exactly where no call that is accepted brings one that is taken. -/
theorem registry_consistent_iff (calls : List Codec) :
    Always step Indexed new calls ∧
      (Always step Consistent new calls ↔ Guarded step Unshadowing new calls) := by
  refine ⟨?_, ?_⟩
  · exact (always_of_step Inv.new fun s codec s' hi h => hi.step h).mono fun s hi => hi.indexed
  · exact always_iff_guarded Inv.new Consistent.new (fun s codec s' hi _ h _ => hi.step h)
      fun s codec s' hi hc h => consistent_step_iff hi hc h

def stub (name contentType : String) : Codec where
  name := name
  contentType := contentType
  encodeValue _ := .ok []
  decodeValue _ := .ok .null

/-- Two codecs of one content type are registered, and the first is found by its name
only. -/
theorem content_type_shadowed :
    let calls := [stub "json" "application/json", stub "simd_json" "application/json"]
    (run step new calls).map (fun s => s.registered.map Codec.name) =
        some ["json", "simd_json"] ∧
      ¬ Always step Consistent new calls := by
  refine ⟨rfl, fun h => ?_⟩
  have hlast := h.last rfl
  have hfound := hlast.byContentType (stub "json" "application/json") List.mem_cons_self
  have hsame : stub "simd_json" "application/json" = stub "json" "application/json" :=
    Option.some.inj (Outcome.ok.inj hfound)
  exact absurd (congrArg Codec.name hsame) (by decide)

end Session

end Rinfra.Codecs
