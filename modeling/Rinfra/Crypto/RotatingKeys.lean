import Mathlib.Algebra.Group.Nat.Defs
import Mathlib.Data.List.Nodup
import Mathlib.Data.List.Perm.Subperm
import Mathlib.Logic.Function.Basic
import Rinfra.Core.Error
import Rinfra.Lib.Transition

/-!
# Keys with versions

`RotatingKeyProvider` keeps the last versions of each key. A seed numbers its
version by how many there are, a rotation by the largest one there is; only a
rotation trims. So the two agree as long as no version has been trimmed.

`issued` is every version with its key, in the order of the calls; the code does
not keep it. The key of a rotation comes from outside.
-/

namespace Rinfra.Crypto

open Rinfra.Lib

abbrev KeyBytes := List UInt8

def u32Add (m n : Nat) : Nat := (m + n) % 2 ^ 32

structure VersionedKey where
  version : Nat
  key : KeyBytes
  createdAt : Nat
  deriving DecidableEq, Repr

structure KeyStore where
  versions : List VersionedKey
  activeVersion : Nat
  deriving DecidableEq, Repr

structure KeyVersion where
  version : Nat
  createdAt : Nat
  isActive : Bool
  deriving DecidableEq, Repr

structure RotatingKeyProvider where
  keys : String → Option KeyStore
  maxKeyVersions : Nat
  issued : String → List (Nat × KeyBytes)

inductive Event
  | seedKey (name : String) (key : KeyBytes) (now : Nat)
  | rotateKey (name : String) (newKey : KeyBytes) (now : Nat)

namespace KeyStore

def empty : KeyStore := { versions := [], activeVersion := 0 }

/-- `iter().map(|v| v.version).max().unwrap_or(0)` -/
def largest (store : KeyStore) : Nat := (store.versions.map (·.version)).max?.getD 0

def push (store : KeyStore) (version : Nat) (key : KeyBytes) (now : Nat) : KeyStore :=
  { versions := store.versions ++ [{ version, key, createdAt := now }], activeVersion := version }

/-- The version a seed gives: `versions.len() as u32 + 1`. -/
def seedVersion (store : KeyStore) : Nat := u32Add (store.versions.length % 2 ^ 32) 1

def rotateVersion (store : KeyStore) : Nat := u32Add store.largest 1

def trim (store : KeyStore) (max : Nat) : KeyStore :=
  if store.versions.length > max then
    { store with versions := store.versions.drop (store.versions.length - max) }
  else store

def find (store : KeyStore) (ver : Nat) : Option VersionedKey :=
  store.versions.find? fun v => v.version == ver

def list (store : KeyStore) : List KeyVersion :=
  store.versions.map fun v => ⟨v.version, v.createdAt, v.version == store.activeVersion⟩

end KeyStore

namespace RotatingKeyProvider

def new (maxKeyVersions : Nat) : RotatingKeyProvider :=
  { keys := fun _ => none, maxKeyVersions, issued := fun _ => [] }

def notFound (name : String) : AppError := ⟨.cryptoKeyNotFound, s!"key '{name}' not found"⟩

def set (p : RotatingKeyProvider) (name : String) (store : KeyStore) (version : Nat)
    (key : KeyBytes) : RotatingKeyProvider :=
  { p with
    keys := Function.update p.keys name (some store)
    issued := Function.update p.issued name (p.issued name ++ [(version, key)]) }

def seedKey (p : RotatingKeyProvider) (name : String) (key : KeyBytes) (now : Nat) :
    RotatingKeyProvider :=
  let store := (p.keys name).getD .empty
  p.set name (store.push store.seedVersion key now) store.seedVersion key

def getKeyVersioned (p : RotatingKeyProvider) (name : String) (version : Option Nat) :
    Except AppError KeyBytes :=
  match p.keys name with
  | none => .error (notFound name)
  | some store =>
    let ver := version.getD store.activeVersion
    match store.find ver with
    | none => .error ⟨.cryptoKeyNotFound, s!"key '{name}' version {ver} not found"⟩
    | some vk => .ok vk.key

def getActiveVersion (p : RotatingKeyProvider) (name : String) : Except AppError Nat :=
  match p.keys name with
  | none => .error (notFound name)
  | some store => .ok store.activeVersion

def listVersions (p : RotatingKeyProvider) (name : String) : Except AppError (List KeyVersion) :=
  match p.keys name with
  | none => .error (notFound name)
  | some store => .ok store.list

def rotateKey (p : RotatingKeyProvider) (name : String) (newKey : KeyBytes) (now : Nat) :
    Except AppError Nat × RotatingKeyProvider :=
  match p.keys name with
  | none => (.error (notFound name), p)
  | some store =>
    let newVersion := store.rotateVersion
    (.ok newVersion,
      p.set name ((store.push newVersion newKey now).trim p.maxKeyVersions) newVersion newKey)

def step (p : RotatingKeyProvider) : Event → Option RotatingKeyProvider
  | .seedKey name key now => some (p.seedKey name key now)
  | .rotateKey name newKey now => some (p.rotateKey name newKey now).2

structure Promises (p : RotatingKeyProvider) (name : String) (listed : List KeyVersion) : Prop where
  increasing : (listed.map (·.version)).Pairwise (· < ·)
  active : listed.countP (·.isActive) = 1
  latest : ∃ v key, (p.issued name).getLast? = some (v, key) ∧
    p.getKeyVersioned name none = .ok key
  kept : ∀ v ∈ listed, ∀ key,
    p.getKeyVersioned name (some v.version) = .ok key ↔ (v.version, key) ∈ p.issued name

def Sound (p : RotatingKeyProvider) : Prop :=
  ∀ name listed, p.listVersions name = .ok listed → p.Promises name listed

/-- The call numbers its version by the largest one there is, below `u32::MAX`,
and does not trim it away. -/
def Numbered (p : RotatingKeyProvider) : Event → Prop
  | .seedKey name _ _ => ((p.keys name).getD .empty).versions.length =
      ((p.keys name).getD .empty).largest ∧ ((p.keys name).getD .empty).largest + 1 < 2 ^ 32
  | .rotateKey name _ _ => ∀ store, p.keys name = some store →
      1 ≤ p.maxKeyVersions ∧ store.largest + 1 < 2 ^ 32

end RotatingKeyProvider

-- ---------------------------------------------------------------------------
-- The versions of one name
-- ---------------------------------------------------------------------------

def VersionedKey.entry (v : VersionedKey) : Nat × KeyBytes := (v.version, v.key)

namespace KeyStore

/-- The versions are the last ones issued, and each was larger than those before. -/
structure Logged (store : KeyStore) (issued : List (Nat × KeyBytes)) : Prop where
  last : store.versions.map VersionedKey.entry <:+ issued
  increasing : (issued.map Prod.fst).Pairwise (· < ·)
  positive : ∀ e ∈ issued, 1 ≤ e.1

def Current (store : KeyStore) : Prop :=
  ∃ init v, store.versions = init ++ [v] ∧ store.activeVersion = v.version

section
variable {store : KeyStore} {issued : List (Nat × KeyBytes)}

theorem empty_logged : empty.Logged [] := ⟨List.suffix_rfl, .nil, nofun⟩

theorem Logged.versions_increasing (h : store.Logged issued) :
    (store.versions.map (·.version)).Pairwise (· < ·) := by
  have hlast := (h.last.map Prod.fst).sublist
  rw [List.map_map] at hlast
  exact h.increasing.sublist hlast

theorem Logged.mem (h : store.Logged issued) (hv : v ∈ store.versions) : v.entry ∈ issued :=
  h.last.subset (List.mem_map_of_mem hv)

theorem le_largest (hv : v ∈ store.versions) : v.version ≤ store.largest := by
  have hmem := List.mem_map_of_mem (f := (·.version)) hv
  unfold largest
  cases hmax : (store.versions.map (·.version)).max? with
  | none => simp [List.max?_eq_none_iff.mp hmax] at hmem
  | some m => exact (List.max?_eq_some_iff.mp hmax).2 _ hmem

theorem largest_mem (h : store.versions ≠ []) :
    ∃ v ∈ store.versions, v.version = store.largest := by
  unfold largest
  cases hmax : (store.versions.map (·.version)).max? with
  | none => exact absurd (List.map_eq_nil_iff.mp (List.max?_eq_none_iff.mp hmax)) h
  | some m => exact List.mem_map.mp (List.max?_eq_some_iff.mp hmax).1

/-- No version that was ever issued is larger than the largest one there is. -/
theorem Logged.le_largest (h : store.Logged issued) (hc : store.Current) (he : e ∈ issued) :
    e.1 ≤ store.largest := by
  obtain ⟨init, v, hv, -⟩ := hc
  obtain ⟨old, rfl⟩ := h.last
  have hlast : v.version ≤ store.largest := KeyStore.le_largest (by simp [hv])
  have hissued : old ++ store.versions.map VersionedKey.entry =
      (old ++ init.map VersionedKey.entry) ++ [v.entry] := by simp [hv]
  have hincreasing := h.increasing
  rw [hissued] at he hincreasing
  rw [List.map_append] at hincreasing
  rcases List.mem_append.mp he with he | he
  · have hlt := (List.pairwise_append.mp hincreasing).2.2 e.1 (List.mem_map_of_mem he) v.version
      List.mem_cons_self
    exact Nat.le_trans (Nat.le_of_lt hlt) hlast
  · rw [List.mem_singleton.mp he]
    exact hlast

theorem Logged.push (h : store.Logged issued) (hnew : ∀ e ∈ issued, e.1 < version)
    (hpos : 1 ≤ version) (key : KeyBytes) (now : Nat) :
    (store.push version key now).Logged (issued ++ [(version, key)]) where
  last := by
    obtain ⟨old, rfl⟩ := h.last
    exact ⟨old, by simp [KeyStore.push, VersionedKey.entry]⟩
  increasing := by
    rw [List.map_append]
    refine List.pairwise_append.mpr ⟨h.increasing, List.pairwise_singleton .., ?_⟩
    simpa using hnew
  positive := by
    intro e he
    rcases List.mem_append.mp he with he | he
    · exact h.positive e he
    · rw [List.mem_singleton.mp he]
      exact hpos

theorem push_current (store : KeyStore) (version : Nat) (key : KeyBytes) (now : Nat) :
    (store.push version key now).Current := ⟨store.versions, _, rfl, rfl⟩

theorem Logged.trim (h : store.Logged issued) (max : Nat) : (store.trim max).Logged issued := by
  unfold KeyStore.trim
  split
  · refine ⟨?_, h.increasing, h.positive⟩
    exact ((List.drop_suffix _ _).map _).trans h.last
  · exact h

theorem Current.trim {max : Nat} (h : store.Current) (hmax : 1 ≤ max) :
    (store.trim max).Current := by
  obtain ⟨init, v, hv, hactive⟩ := h
  unfold KeyStore.trim
  split
  · refine ⟨init.drop (store.versions.length - max), v, ?_, hactive⟩
    rw [hv, List.drop_append_of_le_length]
    simp only [List.length_append, List.length_singleton]
    omega
  · exact ⟨init, v, hv, hactive⟩

/-- The versions are positive and increasing, so there are no more of them than
the largest one says. -/
theorem Logged.length_le (h : store.Logged issued) : store.versions.length ≤ store.largest := by
  have hsub : store.versions.map (·.version) ⊆ List.range' 1 store.largest := by
    intro n hn
    obtain ⟨v, hv, rfl⟩ := List.mem_map.mp hn
    have hpos := h.positive _ (h.mem hv)
    have hle := KeyStore.le_largest hv
    simp only [VersionedKey.entry] at hpos
    simp only [List.mem_range'_1]
    omega
  simpa using (h.versions_increasing.nodup.subperm hsub).length_le

theorem find_of_mem (h : (store.versions.map (·.version)).Pairwise (· < ·))
    (hv : v ∈ store.versions) : store.find v.version = some v := by
  unfold find
  generalize store.versions = versions at h hv
  induction versions with
  | nil => cases hv
  | cons w rest ih =>
    obtain ⟨hw, hrest⟩ := List.pairwise_cons.mp h
    rcases List.mem_cons.mp hv with rfl | hv
    · simp
    · have hne : (w.version == v.version) = false :=
        beq_false_of_ne (Nat.ne_of_lt (hw _ (List.mem_map_of_mem hv)))
      rw [List.find?_cons_of_neg (by simp [hne])]
      exact ih hrest hv

end

end KeyStore

-- ---------------------------------------------------------------------------
-- All names
-- ---------------------------------------------------------------------------

namespace RotatingKeyProvider

structure Inv (p : RotatingKeyProvider) : Prop where
  absent : ∀ name, p.keys name = none → p.issued name = []
  logged : ∀ name store, p.keys name = some store → store.Logged (p.issued name)
  current : ∀ name store, p.keys name = some store → store.Current

section
variable {p p' : RotatingKeyProvider} {store : KeyStore}

theorem new_inv (maxKeyVersions : Nat) : (new maxKeyVersions).Inv := by
  constructor <;> simp [new]

theorem Inv.sound (hi : p.Inv) : p.Sound := by
  intro name listed hlisted
  unfold listVersions at hlisted
  cases hk : p.keys name with
  | none => simp [hk] at hlisted
  | some store =>
    rw [hk] at hlisted
    cases hlisted
    have hlogged := hi.logged name store hk
    have hincreasing := hlogged.versions_increasing
    obtain ⟨init, v, hversions, hactive⟩ := hi.current name store hk
    have hlast : v ∈ store.versions := by simp [hversions]
    have hget : ∀ w ∈ store.versions, p.getKeyVersioned name (some w.version) = .ok w.key := by
      intro w hw
      simp [getKeyVersioned, hk, KeyStore.find_of_mem hincreasing hw]
    constructor
    · simpa [KeyStore.list, Function.comp_def] using hincreasing
    · have hcount := List.count_eq_one_of_mem hincreasing.nodup (List.mem_map_of_mem hlast)
      rw [List.count_eq_countP, List.countP_map, ← hactive] at hcount
      rw [KeyStore.list, List.countP_map]
      exact hcount
    · obtain ⟨old, hissued⟩ := hlogged.last
      refine ⟨v.version, v.key, ?_, ?_⟩
      · rw [← hissued, hversions]
        simp [VersionedKey.entry]
      · simp [getKeyVersioned, hk, hactive, KeyStore.find_of_mem hincreasing hlast]
    · intro info hinfo key
      obtain ⟨w, hw, rfl⟩ := List.mem_map.mp hinfo
      rw [hget w hw]
      constructor
      · rintro ⟨⟩
        exact hlogged.mem hw
      · intro hmem
        have heq := List.inj_on_of_nodup_map hlogged.increasing.nodup (hlogged.mem hw) hmem rfl
        cases heq
        rfl

theorem Inv.set (hi : p.Inv) (hlogged : store.Logged (p.issued name ++ [(version, key)]))
    (hcurrent : store.Current) : (p.set name store version key).Inv := by
  constructor
  · intro name' h
    by_cases hname : name' = name
    · subst hname
      simp [RotatingKeyProvider.set] at h
    · simp only [RotatingKeyProvider.set, Function.update_of_ne hname] at h ⊢
      exact hi.absent name' h
  · intro name' store' h
    by_cases hname : name' = name
    · subst hname
      simp only [RotatingKeyProvider.set, Function.update_self, Option.some.injEq] at h ⊢
      exact h ▸ hlogged
    · simp only [RotatingKeyProvider.set, Function.update_of_ne hname] at h ⊢
      exact hi.logged name' store' h
  · intro name' store' h
    by_cases hname : name' = name
    · subst hname
      simp only [RotatingKeyProvider.set, Function.update_self, Option.some.injEq] at h
      exact h ▸ hcurrent
    · simp only [RotatingKeyProvider.set, Function.update_of_ne hname] at h
      exact hi.current name' store' h

theorem Inv.seeded (hi : p.Inv) (name : String) :
    ((p.keys name).getD .empty).Logged (p.issued name) ∧
      ∀ e ∈ p.issued name, e.1 ≤ ((p.keys name).getD .empty).largest := by
  cases hk : p.keys name with
  | none =>
    rw [hi.absent name hk]
    exact ⟨KeyStore.empty_logged, nofun⟩
  | some store =>
    exact ⟨hi.logged name store hk, fun e he =>
      (hi.logged name store hk).le_largest (hi.current name store hk) he⟩

theorem Inv.step (hi : p.Inv) (hg : p.Numbered e) (h : p.step e = some p') : p'.Inv := by
  cases e with
  | seedKey name key now =>
    cases h
    obtain ⟨hlogged, hle⟩ := hi.seeded name
    obtain ⟨hlength, hsmall⟩ := hg
    have hversion : ((p.keys name).getD .empty).seedVersion =
        ((p.keys name).getD .empty).largest + 1 := by
      rw [KeyStore.seedVersion, hlength, u32Add, Nat.mod_eq_of_lt (Nat.lt_of_succ_lt hsmall),
        Nat.mod_eq_of_lt hsmall]
    refine hi.set (hlogged.push ?_ ?_ key now) (KeyStore.push_current ..)
    · intro e he
      rw [hversion]
      exact Nat.lt_succ_of_le (hle e he)
    · rw [hversion]
      exact Nat.succ_pos _
  | rotateKey name newKey now =>
    cases hk : p.keys name with
    | none =>
      simp only [RotatingKeyProvider.step, rotateKey, hk, Option.some.injEq] at h
      exact h ▸ hi
    | some store =>
      simp only [RotatingKeyProvider.step, rotateKey, hk, Option.some.injEq] at h
      obtain ⟨hmax, hsmall⟩ := hg store hk
      have hversion : store.rotateVersion = store.largest + 1 := by
        rw [KeyStore.rotateVersion, u32Add, Nat.mod_eq_of_lt hsmall]
      subst h
      refine hi.set (KeyStore.Logged.trim ((hi.logged name store hk).push ?_ ?_ newKey now) _)
        ((KeyStore.push_current ..).trim hmax)
      · intro e he
        rw [hversion]
        exact Nat.lt_succ_of_le ((hi.logged name store hk).le_largest (hi.current name store hk) he)
      · rw [hversion]
        exact Nat.succ_pos _

/-- Where every version is numbered by the largest one and stays, the versions of
every name keep their promises throughout. -/
theorem numbered_sound (maxKeyVersions : Nat) (es : List Event)
    (h : Guarded RotatingKeyProvider.step Numbered (new maxKeyVersions) es) :
    Always RotatingKeyProvider.step Sound (new maxKeyVersions) es :=
  (h.invariant (new_inv maxKeyVersions) fun _ _ _ hi hg hs => hi.step hg hs).mono
    fun _ hi => hi.sound

/-- Two seeds and a rotation. -/
theorem numbered_sound_rotation : Always RotatingKeyProvider.step Sound (new 3)
    [.seedKey "master" [1] 0, .seedKey "master" [2] 0, .rotateKey "master" [3] 60] := by
  refine numbered_sound 3 _ ?_
  rintro _ ⟨⟩
  refine ⟨⟨by decide +kernel, by decide +kernel⟩, ?_⟩
  rintro _ ⟨⟩
  refine ⟨⟨by decide +kernel, by decide +kernel⟩, ?_⟩
  rintro _ ⟨⟩
  refine ⟨?_, trivial⟩
  rintro _ ⟨⟩
  decide +kernel

/-- The seed after the first version is gone counts three versions and gives the
number 4 again. -/
theorem seed_after_trim : ∃ p, run RotatingKeyProvider.step (new 3)
    [.seedKey "master" [1] 0, .rotateKey "master" [2] 60, .rotateKey "master" [3] 120,
      .rotateKey "master" [4] 180, .seedKey "master" [5] 200] = some p ∧ ¬ p.Sound := by
  refine ⟨_, rfl, fun h => ?_⟩
  have hincreasing := (h "master" _ rfl).increasing
  revert hincreasing
  decide +kernel

-- ---------------------------------------------------------------------------
-- Below the last number
-- ---------------------------------------------------------------------------

def BelowMax (p : RotatingKeyProvider) : Event → Prop
  | .seedKey _ _ _ => True
  | .rotateKey name _ _ => ∀ store, p.keys name = some store → store.largest + 1 < 2 ^ 32

theorem Sound.numbered (hi : p.Inv) (hb : p.BelowMax e) (h : p.step e = some p') (hs : p'.Sound) :
    p.Numbered e := by
  cases e with
  | seedKey name key now =>
    cases h
    obtain ⟨hlogged, -⟩ := hi.seeded name
    generalize hstore : (p.keys name).getD .empty = store at hlogged
    have hlist : (p.seedKey name key now).listVersions name =
        .ok (store.push store.seedVersion key now).list := by
      simp [listVersions, seedKey, RotatingKeyProvider.set, hstore]
    have hincreasing := (hs name _ hlist).increasing
    simp only [KeyStore.list, KeyStore.push, List.map_append, List.map_map, List.map_cons,
      List.map_nil, List.pairwise_append, List.mem_map, List.mem_singleton] at hincreasing
    have hnew : ∀ v ∈ store.versions, v.version < store.seedVersion :=
      fun v hv => hincreasing.2.2 _ ⟨v, hv, rfl⟩ _ rfl
    have hlength := hlogged.length_le
    simp only [Numbered, hstore]
    by_cases hnone : store.versions = []
    · simp [hnone, KeyStore.largest]
    · obtain ⟨v, hv, hversion⟩ := KeyStore.largest_mem hnone
      have hlt := hnew v hv
      rw [hversion, KeyStore.seedVersion, u32Add] at hlt
      omega
  | rotateKey name newKey now =>
    intro store hk
    refine ⟨?_, hb store hk⟩
    simp only [RotatingKeyProvider.step, rotateKey, hk, Option.some.injEq] at h
    subst h
    have hlist : (p.set name ((store.push store.rotateVersion newKey now).trim p.maxKeyVersions)
        store.rotateVersion newKey).listVersions name =
          .ok ((store.push store.rotateVersion newKey now).trim p.maxKeyVersions).list := by
      simp [listVersions, RotatingKeyProvider.set]
    have hactive := (hs name _ hlist).active
    rw [Nat.one_le_iff_ne_zero]
    intro hzero
    -- everything is trimmed
    have hnone : ((store.push store.rotateVersion newKey now).trim 0).list = [] := by
      simp [KeyStore.trim, KeyStore.list, KeyStore.push]
    rw [hzero, hnone] at hactive
    cases hactive

/-- Below `u32::MAX`, the versions keep their promises in exactly those runs. -/
theorem sound_iff_numbered {maxKeyVersions : Nat} {es : List Event}
    (h : Guarded RotatingKeyProvider.step BelowMax (new maxKeyVersions) es) :
    Always RotatingKeyProvider.step Sound (new maxKeyVersions) es ↔
      Guarded RotatingKeyProvider.step Numbered (new maxKeyVersions) es := by
  refine Guarded.always_iff (I := Inv) h (new_inv maxKeyVersions) (new_inv maxKeyVersions).sound
    ?_ ?_
  · intro p e p' hi _ hb hs hsound
    exact hi.step (hsound.numbered hi hb hs) hs
  · intro p e p' hi _ hb hs
    exact ⟨fun hsound => hsound.numbered hi hb hs, fun hg => (hi.step hg hs).sound⟩

end

end RotatingKeyProvider

end Rinfra.Crypto
