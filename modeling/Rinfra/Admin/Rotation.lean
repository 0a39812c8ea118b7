import Rinfra.Admin.RootOnly

/-!
# Rotations of the root

A rotation deletes every root and then creates one, in two calls of the store,
and asked who may rotate before either. `Orderly` is what it relies on and
nothing sees to: that rotations take turns, that none stops half-way, and that
no deletion names a root.
-/

namespace Rinfra.Admin

open Rinfra.Lib

def rootCount (tokens : List AdminTokenRecord) : Nat := tokens.countP fun t => t.role = .root

def Backend.AtRest (b : Backend Data) : Prop :=
  ∀ h, b.requests h = .idle ∨ ∃ response, b.requests h = .answered response

def Event.Succeeds (serde : Serde Data) (tokens : List AdminTokenRecord) : Event Data → Prop
  | .snapshot _ => ∃ data, serde.toStringPretty tokens = .ok data
  | e => ¬ e.Fails

structure Orderly (setup : Setup Data) (b : Backend Data) (e : Step Data) : Prop where
  /-- No rotation deletes the root while another has yet to create one. -/
  turns : StoreCall setup b e h (.deleteRoot c) next → ∀ h', b.requests h' ≠ .rotating
  /-- The deletion of the roots is persisted. -/
  persists : e = .persist e' → b.requests h = .rotating → Event.OfCall (2 * h) e' →
    e'.Succeeds setup.serde b.world.store.tokens
  /-- The new root's token is hashed. -/
  hashes : StoreCall setup b e h (.create c .root label expiresAt tokenHash tokenId now) next →
    ∃ s, tokenHash = .ok s
  /-- A deletion names no root. -/
  spares : StoreCall setup b e h (.delete c tokenId) next →
    ∀ record ∈ b.world.store.tokens, record.role = .root → record.id ≠ tokenId

def CallState.Unfailed (p : CallState Data) : Prop := ∀ e, p ≠ .done (.error e)

/-- There is one root, or a single rotation is about to create it. -/
structure OneRoot (b : Backend Data) : Prop where
  single : b.requests h = .rotating → b.requests h' = .rotating → h = h'
  unfailed : b.requests h = .rotating → (b.world.calls (2 * h)).Unfailed
  absent : b.requests h = .rotating → rootCount b.world.store.tokens = 0
  present : (∀ h, b.requests h ≠ .rotating) → rootCount b.world.store.tokens = 1

section
variable {Data : Type} {setup : Setup Data} {b b' : Backend Data} {e : Step Data}

theorem SameTokens.rootCount_eq (h : SameTokens ts us) : rootCount ts = rootCount us := by
  have hcount : ∀ ts : List AdminTokenRecord, rootCount ts =
      (ts.map AdminTokenRecord.forgetUse).countP fun t => t.role = .root := by
    intro ts
    rw [List.countP_map]
    rfl
  rw [hcount ts, hcount us, h]

theorem rootCount_deleteRoot (tokens : List AdminTokenRecord) :
    rootCount (tokens.filter fun t => t.role ≠ .root) = 0 := by
  simp [rootCount, List.countP_eq_zero]

theorem rootCount_delete (h : ∀ t ∈ tokens, t.role = .root → t.id ≠ tokenId) :
    rootCount (tokens.filter fun t => t.id ≠ tokenId) = rootCount tokens := by
  unfold rootCount
  rw [List.countP_filter]
  apply List.countP_congr
  intro t ht
  simpa using h t ht

theorem rootCount_create {e : Event Data}
    (he : e = .create c .admin label expiresAt tokenHash tokenId now) :
    rootCount (e.applied verifyToken tokens) = rootCount tokens := by
  subst he
  cases tokenHash with
  | error s => rfl
  | ok s => simp [Event.applied, rootCount]

theorem unfailed_goto {w : World Data} (hp : p.Unfailed) (hc : (w.calls c').Unfailed) :
    ((w.goto c p).calls c').Unfailed := by
  by_cases hcc : c' = c
  · subst hcc
    rwa [goto_same]
  · rwa [goto_of_ne hcc]

theorem persist_unfailed {e : Event Data} (hp : e.ofPersist = true)
    (hgood : e.Succeeds serde w.store.tokens) (hs : step serde verifyToken w e = some w')
    (hc : (w.calls c).Unfailed) : (w'.calls c).Unfailed := by
  cases e with
  | snapshot c' =>
    obtain ⟨data, hdata⟩ := hgood
    simp only [step, hdata] at hs
    split at hs <;> cases hs
    exact unfailed_goto (by rintro _ ⟨⟩) hc
  | makeDir c' failure =>
    obtain rfl : failure = none := not_not.mp hgood
    simp only [step] at hs
    split at hs <;> cases hs
    exact unfailed_goto (by rintro _ ⟨⟩) hc
  | write c' failure =>
    obtain rfl : failure = none := not_not.mp hgood
    simp only [step] at hs
    split at hs <;> cases hs
    exact unfailed_goto (by rintro _ ⟨⟩) hc
  | rename c' failure =>
    obtain rfl : failure = none := not_not.mp hgood
    simp only [step] at hs
    split at hs
    · split at hs <;> cases hs
      exact unfailed_goto (by rintro _ ⟨⟩) hc
    · cases hs
  | _ => cases hp

theorem goto_rotating (hb : b.requests h ≠ .rotating) (hp : p ≠ .rotating) :
    (b.goto h p).requests h' = .rotating ↔ b.requests h' = .rotating := by
  by_cases hh : h' = h
  · subst hh
    simp [hb, hp]
  · rw [backend_goto_of_ne hh]

theorem OneRoot.congr (hi : OneRoot b)
    (hrot : ∀ h, b'.requests h = .rotating ↔ b.requests h = .rotating)
    (hcount : rootCount b'.world.store.tokens = rootCount b.world.store.tokens)
    (hcalls : ∀ h, b.requests h = .rotating → (b'.world.calls (2 * h)).Unfailed) :
    OneRoot b' := by
  constructor
  · intro h h' hh hh'
    exact hi.single ((hrot h).mp hh) ((hrot h').mp hh')
  · intro h hh
    exact hcalls h ((hrot h).mp hh)
  · intro h hh
    rw [hcount]
    exact hi.absent ((hrot h).mp hh)
  · intro hnone
    rw [hcount]
    exact hi.present fun h hh => hnone h ((hrot h).mpr hh)

theorem Decides.not_rotating (hd : Decides setup b e h (.answer response))
    (hu : b.requests h = .rotating → (b.world.calls (2 * h)).Unfailed) :
    b.requests h ≠ .rotating := by
  intro hrot
  generalize haction : Action.answer response = action at hd
  cases hd with
  | start hin =>
    rw [hrot] at hin
    cases hin
  | resume hwaits hdone hgo =>
    subst haction
    rw [hrot] at hwaits hgo
    cases hwaits
    simp only [Progress.resume] at hgo
    split at hgo
    · cases hgo
    · exact hu hrot _ hdone
    · cases hgo

/-- A rotation has deleted the roots while no other was between its calls. -/
theorem OneRoot.deleted {w : World Data} (hnone : ∀ h', b.requests h' ≠ .rotating)
    (hu : (w.calls (2 * h)).Unfailed) (hcount : rootCount w.store.tokens = 0) :
    OneRoot ({ b with world := w }.goto h .rotating) := by
  have honly : ∀ h', ({ b with world := w }.goto h .rotating).requests h' = .rotating →
      h' = h := by
    intro h' hrot
    by_contra hne
    rw [backend_goto_of_ne hne] at hrot
    exact hnone h' hrot
  constructor
  · intro h₁ h₂ hrot₁ hrot₂
    rw [honly h₁ hrot₁, honly h₂ hrot₂]
  · intro h' hrot
    rw [honly h' hrot]
    exact hu
  · intro h' _
    exact hcount
  · intro hno
    exact absurd backend_goto_same (hno h)

theorem OneRoot.created {w : World Data} (hi : OneRoot b) (hin : b.requests h = .rotating)
    (hp : p ≠ .rotating) (hcount : rootCount w.store.tokens = 1) :
    OneRoot ({ b with world := w }.goto h p) := by
  have hnone : ∀ h', ({ b with world := w }.goto h p).requests h' ≠ .rotating := by
    intro h' hrot
    by_cases hh : h' = h
    · subst hh
      exact hp (by simpa using hrot)
    · rw [backend_goto_of_ne hh] at hrot
      exact hh (hi.single hrot hin)
  constructor
  · intro h₁ h₂ hrot₁
    exact absurd hrot₁ (hnone h₁)
  · intro h' hrot
    exact absurd hrot (hnone h')
  · intro h' hrot
    exact absurd hrot (hnone h')
  · intro _
    exact hcount

theorem OneRoot.others {w : World Data} (hi : OneRoot b) (hnot : b.requests h ≠ .rotating)
    (hcalls : ∀ c, ¬ 2 * h = c → w.calls c = b.world.calls c) (hrot : b.requests h' = .rotating) :
    (w.calls (2 * h')).Unfailed := by
  have hne : ¬ 2 * h = 2 * h' := by
    intro heq
    obtain rfl : h = h' := by omega
    exact hnot hrot
  rw [hcalls (2 * h') hne]
  exact hi.unfailed hrot

theorem deleteRoot_unfailed {w : World Data}
    (hs : step serde verifyToken w (.deleteRoot c) = some w') : (w'.calls c).Unfailed := by
  simp only [Admin.step] at hs
  split at hs <;> cases hs
  rw [goto_same]
  rintro _ ⟨⟩

theorem OneRoot.step (hi : OneRoot b) (hg : Orderly setup b e) (hs : b.step setup e = some b') :
    OneRoot b' := by
  rcases step_cases hs with ⟨h, req, now, outcome, tokens, rfl, hidle, hcall, rfl⟩ |
    ⟨h, action, hd, ha⟩ | ⟨e', world', rfl, hpersist, hworld, rfl⟩
  · have hsame := router_call_sameTokens setup.verifyToken setup.router req now
      b.world.store.tokens
    rw [hcall] at hsame
    refine hi.congr (fun h' => goto_rotating ?_ ?_) hsame.rootCount_eq fun h' => hi.unfailed
    · rw [hidle]
      exact Progress.noConfusion
    · cases outcome <;> exact Progress.noConfusion
  · cases action with
    | answer response =>
      cases act_answer ha
      exact hi.congr (fun h' => goto_rotating (hd.not_rotating hi.unfailed) Progress.noConfusion)
        rfl fun h' => hi.unfailed
    | call e' next =>
      obtain ⟨world', hworld, rfl⟩ := act_call ha
      obtain ⟨htokens, hcalls⟩ := step_frame hworld
      have hc := hd.storeCall
      cases hc with
      | create hin hroot =>
        have hnot : b.requests h ≠ .rotating := by simp [hin]
        refine hi.congr (fun h' => goto_rotating hnot Progress.noConfusion) ?_ fun h' hrot => ?_
        · exact htokens ▸ rootCount_create rfl
        · exact hi.others hnot hcalls hrot
      | delete hin hroot hparam hother =>
        have hnot : b.requests h ≠ .rotating := by simp [hin]
        refine hi.congr (fun h' => goto_rotating hnot Progress.noConfusion) ?_ fun h' hrot => ?_
        · exact htokens ▸ rootCount_delete (hg.spares (.delete hin hroot hparam hother))
        · exact hi.others hnot hcalls hrot
      | deleteRoot hin hroot =>
        exact .deleted (hg.turns (.deleteRoot hin hroot)) (deleteRoot_unfailed hworld)
          (htokens ▸ rootCount_deleteRoot _)
      | createRoot hin hdone =>
        obtain ⟨s, hs⟩ := hg.hashes (.createRoot hin hdone)
        refine hi.created hin Progress.noConfusion ?_
        rw [htokens, hs]
        simpa [rootCount, Event.applied] using hi.absent hin
  · obtain ⟨htokens, hcalls⟩ := step_frame hworld
    refine hi.congr (fun h' => Iff.rfl) ?_ fun h' hrot => ?_
    · rw [htokens, applied_ofPersist hpersist]
    · by_cases hof : Event.OfCall (2 * h') e'
      · exact persist_unfailed hpersist (hg.persists rfl hrot hof) hworld (hi.unfailed hrot)
      · rw [hcalls _ hof]
        exact hi.unfailed hrot

-- ============================================================
-- Roots from before a rotation

def Progress.Deleted : Progress → Prop
  | .rotating | .recreating _ | .answered (.api _ _ _ (.rotated ..)) => True
  | _ => False

def MadeIn (es : List (Step Data)) (record : AdminTokenRecord) : Prop :=
  ∃ h draw randomHex, .resume h draw randomHex ∈ es ∧ record.id = draw.id ∧
    draw.hashPassword (generateToken .root randomHex) = .ok record.tokenHash

theorem MadeIn.congr (hm : MadeIn es old) (h : old.forgetUse = record.forgetUse) :
    MadeIn es record := by
  have hid : old.forgetUse.id = record.forgetUse.id := congrArg _ h
  have hhash : old.forgetUse.tokenHash = record.forgetUse.tokenHash := congrArg _ h
  obtain ⟨h', draw, randomHex, hmem, hdrawn, hhashed⟩ := hm
  exact ⟨h', draw, randomHex, hmem, hid.symm.trans hdrawn, hhashed.trans (congrArg _ hhash)⟩

theorem MadeIn.append (hm : MadeIn es record) (fs : List (Step Data)) :
    MadeIn (es ++ fs) record := by
  obtain ⟨h, draw, randomHex, hmem, hmade⟩ := hm
  exact ⟨h, draw, randomHex, List.mem_append_left _ hmem, hmade⟩

theorem Decides.deleted (hd : Decides setup b e h (.answer response))
    (hdel : (Progress.answered response).Deleted) : (b.requests h).Deleted := by
  generalize haction : Action.answer response = action at hd
  cases hd with
  | start hin =>
    have hroot : (Progress.answered response).Rooted := by
      unfold Progress.Deleted at hdel
      split at hdel <;> simp_all [Progress.Rooted]
    obtain ⟨root, -, -, rfl⟩ := startHandler_answer haction.symm hroot
    exact absurd hdel id
  | resume hwaits hdone hgo =>
    subst haction
    cases hp : b.requests h with
    | rotating | recreating token => trivial
    | creating token | deleting tokenId =>
      rw [hp] at hgo
      simp only [Progress.resume] at hgo
      split at hgo <;> cases hgo <;> exact absurd hdel id
    | _ =>
      rw [hp] at hwaits
      cases hwaits

theorem deleted_step (hs : b.step setup e = some b') (hdel : (b'.requests h).Deleted) :
    (b.requests h).Deleted ∨ ∀ record ∈ b'.world.store.tokens, record.role ≠ .root := by
  rcases step_request hs h with hsame | ⟨req, now, rfl, hp⟩ | ⟨response, hd, hp⟩ |
    ⟨e', next, hcall, hp, htokens⟩
  · rw [hsame] at hdel
    exact .inl hdel
  · rw [hp] at hdel
    cases houtcome : (setup.router.call setup.verifyToken req now b.world.store.tokens).1 <;>
      rw [houtcome] at hdel <;> exact absurd hdel id
  · rw [hp] at hdel
    exact .inl (hd.deleted hdel)
  · rw [hp] at hdel
    cases hcall with
    | create hin hroot | delete hin hroot hparam hother => exact absurd hdel id
    | deleteRoot hin hroot =>
      right
      intro record hmem
      rw [htokens] at hmem
      simpa using (List.mem_filter.mp hmem).2
    | createRoot hin hdone =>
      rw [hin]
      exact .inl trivial

/-- Once a rotation has deleted the roots, those there are have been made by a
rotation since. -/
theorem roots_made (hr : run (Backend.step setup) b es = some b')
    (hbefore : ¬ (b.requests h).Deleted) (hdel : (b'.requests h).Deleted) :
    ∀ record ∈ b'.world.store.tokens, record.role = .root → MadeIn es record := by
  refine run_history_invariant (H := fun fs b => (b.requests h).Deleted →
    ∀ record ∈ b.world.store.tokens, record.role = .root → MadeIn fs record)
    [] (fun h => absurd h hbefore) ?_ hr hdel
  intro fs b e b' hall hs hdel record hmem hrole
  rcases deleted_step hs hdel with hbefore | hnone
  · rcases roots_step hs hmem hrole with ⟨old, hold, heq⟩ | ⟨h', draw, randomHex, rfl, -, hmade⟩
    · have holdrole : old.forgetUse.role = record.forgetUse.role := congrArg _ heq
      have hmade := hall hbefore old hold (holdrole.trans hrole)
      exact (hmade.congr heq).append [e]
    · exact ⟨h', draw, randomHex, List.mem_append_right _ (List.mem_singleton_self _), hmade⟩
  · exact absurd hrole (hnone record hmem)

end

/-- A run of requests that begins with one root and keeps to `Orderly` has one
root whenever every request has been answered. Once a rotation has returned
success, what verifies as a root's token fits a hash that a rotation has made
since the run's states in which it had not yet deleted the roots.

Premise: the store has one root, and each step is orderly. -/
theorem rotation_keeps_one_root (setup : Setup Data) (world : World Data)
    (hone : rootCount world.store.tokens = 1) (es : List (Step Data))
    (hg : Guarded (Backend.step setup) (Orderly setup) (.start world) es) :
    Always (Backend.step setup)
        (fun b => b.AtRest → rootCount b.world.store.tokens = 1) (.start world) es ∧
      ∀ earlier later b b' h status code message token info text,
        es = earlier ++ later →
        run (Backend.step setup) (.start world) earlier = some b →
        ¬ (b.requests h).Deleted →
        run (Backend.step setup) b later = some b' →
        b'.requests h = .answered (.api status code message (.rotated token info text)) →
        ∀ plaintext now root,
          (verify setup.verifyToken plaintext now b'.world.store.tokens).1 = some root →
          root.role = .root →
          ∃ record ∈ b'.world.store.tokens, MadeIn later record ∧
            setup.verifyToken plaintext record.tokenHash = true ∧
            root = (record.usedAt now).info := by
  constructor
  · have hstart : OneRoot (.start world) := by
      constructor
      · intro h h' hrot
        cases hrot
      · intro h hrot
        cases hrot
      · intro h hrot
        cases hrot
      · exact fun _ => hone
    apply (hg.invariant hstart fun b e b' hi he hs => hi.step he hs).mono
    intro b hi hrest
    apply hi.present
    intro h hrot
    rcases hrest h with hidle | ⟨response, hanswer⟩
    · rw [hrot] at hidle
      cases hidle
    · rw [hrot] at hanswer
      cases hanswer
  · intro earlier later b b' h status code message token info text _ _ hbefore hrun hanswer
      plaintext now root hverify hrole
    obtain ⟨record, hmem, -, hfits, rfl⟩ := verify_some hverify
    have hmade := roots_made hrun hbefore (by rw [hanswer]; trivial) record hmem hrole
    exact ⟨record, hmem, hmade, hfits, rfl⟩

-- ============================================================
-- Runs of rotations

def persistAll (c : Nat) : List (Step (List AdminTokenRecord)) :=
  [.persist (.snapshot c), .persist (.makeDir c none), .persist (.write c none),
    .persist (.rename c none)]

/-- Both rotations delete before either creates. -/
def overlapping : List (Step (List AdminTokenRecord)) :=
  [.call 0 rotate 2, .call 1 rotate 2, .handle 0 2 plainDraw "", .handle 1 2 plainDraw ""] ++
  persistAll 0 ++ persistAll 2 ++
  [.resume 0 ⟨.ok, "id-a", 3⟩ "aa", .resume 1 ⟨.ok, "id-b", 3⟩ "bb"] ++
  persistAll 1 ++ persistAll 3 ++
  [.resume 0 plainDraw "", .resume 1 plainDraw ""]

/-- The deletion is not persisted, and the rotation stops there. -/
def halfRotation : List (Step (List AdminTokenRecord)) :=
  [.call 0 rotate 2, .handle 0 2 plainDraw "", .persist (.snapshot 0), .persist (.makeDir 0 none),
    .persist (.write 0 none), .persist (.rename 0 (some "denied")), .resume 0 plainDraw ""]

theorem rotations_leave_two_roots_or_none :
    rootCount rootStore.tokens = 1 ∧
    (∃ b, run (Backend.step plainSetup) (.start (.start rootStore fun _ => none)) overlapping =
        some b ∧ b.AtRest ∧ rootCount b.world.store.tokens = 2 ∧
      (verify (· == ·) "rinfra_root_aa" 4 b.world.store.tokens).1.isSome ∧
      (verify (· == ·) "rinfra_root_bb" 4 b.world.store.tokens).1.isSome) ∧
    ∃ b, run (Backend.step plainSetup) (.start (.start rootStore fun _ => none)) halfRotation =
        some b ∧ b.AtRest ∧ rootCount b.world.store.tokens = 0 ∧
      b.requests 0 = .answered (.internal "rename failed: denied") := by
  refine ⟨rfl, ⟨_, rfl, ?_, rfl, rfl, rfl⟩, _, rfl, ?_, rfl, rfl⟩
  · intro h
    match h with
    | 0 => exact .inr ⟨_, rfl⟩
    | 1 => exact .inr ⟨_, rfl⟩
    | _ + 2 => exact .inl rfl
  · intro h
    match h with
    | 0 => exact .inr ⟨_, rfl⟩
    | _ + 1 => exact .inl rfl

section
variable {Data : Type} {setup : Setup Data} {b : Backend Data}

theorem orderly_call : Orderly setup b (.call h req now) := by
  constructor
  · rintro _ _ _ ⟨⟩
  · rintro _ _ ⟨⟩
  · rintro _ _ _ _ _ _ _ _ ⟨⟩
  · rintro _ _ _ _ ⟨⟩

theorem orderly_persist (hgood : e'.Succeeds setup.serde b.world.store.tokens) :
    Orderly setup b (.persist e') := by
  constructor
  · rintro _ _ _ ⟨⟩
  · rintro _ _ ⟨⟩ - -
    exact hgood
  · rintro _ _ _ _ _ _ _ _ ⟨⟩
  · rintro _ _ _ _ ⟨⟩

theorem orderly_rotate (hin : b.requests h = .inside .rotateRoot params body info)
    (hnone : ∀ h', b.requests h' ≠ .rotating) :
    Orderly setup b (.handle h clock draw randomHex) := by
  constructor
  · intro _ _ _ _
    exact hnone
  · rintro _ _ ⟨⟩
  · rintro _ _ _ _ _ _ _ _ ⟨⟩
  · intro _ _ _ _ hc
    cases hc with
    | delete hin' hroot hparam hother =>
      rw [hin] at hin'
      cases hin'

theorem orderly_delete (hin : b.requests h = .inside .deleteToken params body info)
    (hspares : ∀ record ∈ b.world.store.tokens, record.role ≠ .root) :
    Orderly setup b (.handle h clock draw randomHex) := by
  constructor
  · intro _ _ _ hc
    cases hc with
    | deleteRoot hin' hroot =>
      rw [hin] at hin'
      cases hin'
  · rintro _ _ ⟨⟩
  · rintro _ _ _ _ _ _ _ _ ⟨⟩
  · intro _ _ _ _ _ record hmem hroot
    exact absurd hroot (hspares record hmem)

theorem orderly_resume (hhash : ∀ token, ∃ s, draw.hashPassword token = .ok s) :
    Orderly setup b (.resume h draw randomHex) := by
  constructor
  · rintro _ _ _ ⟨⟩
  · rintro _ _ ⟨⟩
  · rintro _ _ _ _ _ _ _ _ ⟨⟩
    exact hhash _
  · rintro _ _ _ _ ⟨⟩

end

def adminRecord : AdminTokenRecord :=
  { rootRecord with id := "id-b", role := .admin, tokenHash := "b" }

def twoStore : AdminTokenStore := ⟨tokensJson, [rootRecord, adminRecord]⟩

/-- A token is deleted while a rotation has yet to create its root. -/
def rotateAndDelete : List (Step (List AdminTokenRecord)) :=
  [.call 0 rotate 2, .call 1 (rootRequest .delete "/api/admin/tokens/id-b") 2,
    .handle 0 2 plainDraw "", .handle 1 2 plainDraw ""] ++ persistAll 0 ++ persistAll 2 ++
  [.resume 1 plainDraw "", .resume 0 plainDraw "aa"] ++ persistAll 1 ++ [.resume 0 plainDraw ""]

theorem rotateAndDelete_orderly :
    Guarded (Backend.step plainSetup) (Orderly plainSetup)
      (.start (.start twoStore fun _ => none)) rotateAndDelete :=
  have hhash : ∀ token, ∃ s, plainDraw.hashPassword token = .ok s := fun token => ⟨token, rfl⟩
  (guarded_cons rfl).mpr ⟨orderly_call,
  (guarded_cons rfl).mpr ⟨orderly_call,
  (guarded_cons rfl).mpr ⟨orderly_rotate rfl (fun | 0 | 1 | _ + 2 => Progress.noConfusion),
  (guarded_cons rfl).mpr ⟨orderly_delete rfl (by decide),
  (guarded_cons rfl).mpr ⟨orderly_persist ⟨_, rfl⟩,
  (guarded_cons rfl).mpr ⟨orderly_persist (not_not.mpr rfl),
  (guarded_cons rfl).mpr ⟨orderly_persist (not_not.mpr rfl),
  (guarded_cons rfl).mpr ⟨orderly_persist (not_not.mpr rfl),
  (guarded_cons rfl).mpr ⟨orderly_persist ⟨_, rfl⟩,
  (guarded_cons rfl).mpr ⟨orderly_persist (not_not.mpr rfl),
  (guarded_cons rfl).mpr ⟨orderly_persist (not_not.mpr rfl),
  (guarded_cons rfl).mpr ⟨orderly_persist (not_not.mpr rfl),
  (guarded_cons rfl).mpr ⟨orderly_resume hhash,
  (guarded_cons rfl).mpr ⟨orderly_resume hhash,
  (guarded_cons rfl).mpr ⟨orderly_persist ⟨_, rfl⟩,
  (guarded_cons rfl).mpr ⟨orderly_persist (not_not.mpr rfl),
  (guarded_cons rfl).mpr ⟨orderly_persist (not_not.mpr rfl),
  (guarded_cons rfl).mpr ⟨orderly_persist (not_not.mpr rfl),
  (guarded_cons rfl).mpr ⟨orderly_resume hhash, trivial⟩⟩⟩⟩⟩⟩⟩⟩⟩⟩⟩⟩⟩⟩⟩⟩⟩⟩⟩

theorem rotation_keeps_one_root_rotateAndDelete :
    Always (Backend.step plainSetup) (fun b => b.AtRest → rootCount b.world.store.tokens = 1)
      (.start (.start twoStore fun _ => none)) rotateAndDelete :=
  (rotation_keeps_one_root plainSetup (.start twoStore fun _ => none) rfl rotateAndDelete
    rotateAndDelete_orderly).1

end Rinfra.Admin
