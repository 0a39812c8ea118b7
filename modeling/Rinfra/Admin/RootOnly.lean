import Rinfra.Admin.Routes

/-!
# Only root manages tokens

Whatever a handler does to the store, or tells of it, it does for a request
that `require_root` let through. The infos `require_root` reads come from the
layer alone, which has them from a record that has not expired. So each such
request presented a root's token when it was checked.
-/

namespace Rinfra.Admin

open Rinfra.Lib

/-- The request has been let in as a root's, or has been served as one. -/
def Progress.Rooted : Progress → Prop
  | .inside _ _ _ (some info) => info.role = .root
  | .creating _ | .deleting _ | .rotating | .recreating _ => True
  | .answered (.api _ _ _ data) => data ≠ .none
  | _ => False

/-- When request `h` was checked, it carried a token of a record with role Root
that had not expired. -/
def VerifiedRoot (setup : Setup Data) (world : World Data) (es : List (Step Data))
    (h : Nat) : Prop :=
  ∃ earlier req now later b, es = earlier ++ .call h req now :: later ∧
    run (Backend.step setup) (.start world) earlier = some b ∧
    ∃ record ∈ b.world.store.tokens, record.role = .root ∧
      Presents setup.verifyToken req now record

def Step.request : Step Data → Option Nat
  | .call h .. | .handle h .. | .resume h .. => some h
  | .persist _ => none

section
variable {Data : Type} {setup : Setup Data} {world : World Data} {b b' : Backend Data}
  {es : List (Step Data)} {e : Step Data}

theorem VerifiedRoot.append (hv : VerifiedRoot setup world es h) (fs : List (Step Data)) :
    VerifiedRoot setup world (es ++ fs) h := by
  obtain ⟨earlier, req, now, later, b, rfl, hrun, hrecord⟩ := hv
  exact ⟨earlier, req, now, later ++ fs, b, by simp, hrun, hrecord⟩

-- ============================================================
-- One step

theorem requireRoot_error (hr : requireRoot info = .error response) :
    ¬ (Progress.answered response).Rooted := by
  unfold requireRoot at hr
  split at hr
  · split at hr <;> cases hr
    simp [Progress.Rooted]
  · cases hr
    simp [Progress.Rooted]

theorem startHandler_answer
    (ha : startHandler setup c tokens handler params body info clock draw randomHex =
      .answer response) (hroot : (Progress.answered response).Rooted) :
    ∃ root, info = some root ∧ root.role = .root ∧
      response = .success (.tokens (tokens.map AdminTokenRecord.info)) := by
  have hrefused : ∀ {response'}, requireRoot info = .error response' →
      (.answer response' : Action Data) = .answer response → False := by
    rintro response' hr ⟨⟩
    exact requireRoot_error hr hroot
  cases handler with
  | listTokens =>
    simp only [startHandler, listTokensHandler] at ha
    split at ha
    · rename_i hr
      exact absurd ha (hrefused hr)
    · rename_i root hr
      cases ha
      obtain ⟨hinfo, hrole⟩ := requireRoot_ok.mp hr
      exact ⟨root, hinfo, hrole, rfl⟩
  | createToken =>
    simp only [startHandler, createTokenHandler] at ha
    split at ha
    · cases ha
      exact absurd hroot id
    · split at ha
      · rename_i hr
        exact absurd ha (hrefused hr)
      · split at ha
        · cases ha
        · split at ha <;> cases ha
          exact absurd hroot id
  | deleteToken =>
    simp only [startHandler, deleteTokenHandler] at ha
    split at ha
    · cases ha
      exact absurd hroot id
    · split at ha
      · rename_i hr
        exact absurd ha (hrefused hr)
      · split at ha <;> cases ha
        exact absurd rfl hroot
  | rotateRoot =>
    simp only [startHandler, rotateRootHandler] at ha
    split at ha
    · rename_i hr
      exact absurd ha (hrefused hr)
    · cases ha
  | _ =>
    cases ha
    exact absurd hroot id

theorem waitsFor_rooted {p : Progress} (hw : p.waitsFor h = some c) : p.Rooted := by
  cases p <;> trivial

theorem StoreCall.rooted (hc : StoreCall setup b e h e' next) : (b.requests h).Rooted := by
  cases hc with
  | create hin hroot | delete hin hroot hparam hother | deleteRoot hin hroot =>
    rw [hin]
    exact hroot
  | createRoot hin hdone =>
    rw [hin]
    trivial

theorem Decides.answer_rooted (hd : Decides setup b e h (.answer response))
    (hroot : (Progress.answered response).Rooted) : (b.requests h).Rooted := by
  generalize haction : Action.answer response = action at hd
  cases hd with
  | start hin =>
    obtain ⟨root, rfl, hrole, -⟩ := startHandler_answer haction.symm hroot
    rw [hin]
    exact hrole
  | resume hwaits hdone hgo => exact waitsFor_rooted hwaits

theorem Decides.request (hd : Decides setup b e h action) : e.request = some h := by
  cases hd <;> rfl

theorem rooted_step (hs : b.step setup e = some b') (hroot : (b'.requests h).Rooted) :
    (b.requests h).Rooted ∨ ∃ req now, e = .call h req now ∧
      ∃ record ∈ b.world.store.tokens, record.role = .root ∧
        Presents setup.verifyToken req now record := by
  rcases step_request hs h with hsame | ⟨req, now, rfl, hp⟩ | ⟨response, hd, hp⟩ |
    ⟨e', next, hcall, -, -⟩
  · rw [hsame] at hroot
    exact .inl hroot
  · rw [hp] at hroot
    cases houtcome : (setup.router.call setup.verifyToken req now b.world.store.tokens).1 with
    | reached handler params info =>
      rw [houtcome] at hroot
      cases info with
      | none => exact absurd hroot id
      | some info =>
        obtain ⟨record, hmem, hpresents, rfl⟩ := call_reached_some houtcome
        exact .inr ⟨req, now, rfl, record, hmem, hroot, hpresents⟩
    | served | unauthorized | notFound | methodNotAllowed =>
      rw [houtcome] at hroot
      exact absurd hroot id
  · rw [hp] at hroot
    exact .inl (hd.answer_rooted hroot)
  · exact .inl hcall.rooted

theorem applied_ofPersist {e : Event Data} (hp : e.ofPersist = true) :
    e.applied verifyToken tokens = tokens := by
  cases e <;> first | rfl | cases hp

theorem mem_applied_create {e : Event Data}
    (he : e = .create c role label expiresAt tokenHash tokenId now)
    (hm : record ∈ e.applied verifyToken tokens) :
    record ∈ tokens ∨ record.role = role ∧ record.id = tokenId ∧
      tokenHash = .ok record.tokenHash := by
  subst he
  cases tokenHash with
  | error e => exact .inl hm
  | ok tokenHash =>
    rcases List.mem_append.mp hm with hm | hm
    · exact .inl hm
    · cases List.mem_singleton.mp hm
      exact .inr ⟨rfl, rfl, rfl⟩

theorem tokens_step (hs : b.step setup e = some b') :
    SameTokens b'.world.store.tokens b.world.store.tokens ∨
      ∃ h e' next, StoreCall setup b e h e' next ∧ e.request = some h ∧
        b'.world.store.tokens = e'.applied setup.verifyToken b.world.store.tokens := by
  rcases step_cases hs with ⟨h, req, now, outcome, tokens, rfl, -, hcall, rfl⟩ |
    ⟨h, action, hd, ha⟩ | ⟨e', world', rfl, hpersist, hworld, rfl⟩
  · left
    have hsame := router_call_sameTokens setup.verifyToken setup.router req now
      b.world.store.tokens
    rw [hcall] at hsame
    exact hsame
  · cases action with
    | answer response =>
      cases act_answer ha
      exact .inl rfl
    | call e' next =>
      obtain ⟨world', hworld, rfl⟩ := act_call ha
      exact .inr ⟨h, e', next, hd.storeCall, hd.request, (step_frame hworld).1⟩
  · left
    rw [(step_frame hworld).1, applied_ofPersist hpersist]
    rfl

/-- A record with role Root was there before, last use aside, or has just been
made by a rotation. -/
theorem roots_step (hs : b.step setup e = some b') (hmem : record ∈ b'.world.store.tokens)
    (hrole : record.role = .root) :
    (∃ old ∈ b.world.store.tokens, old.forgetUse = record.forgetUse) ∨
      ∃ h draw randomHex, e = .resume h draw randomHex ∧ b.requests h = .rotating ∧
        record.id = draw.id ∧
        draw.hashPassword (generateToken .root randomHex) = .ok record.tokenHash := by
  rcases tokens_step hs with hsame | ⟨h, e', next, hcall, -, htokens⟩
  · left
    have hmem' : record.forgetUse ∈ b'.world.store.tokens.map AdminTokenRecord.forgetUse :=
      List.mem_map_of_mem hmem
    rw [hsame] at hmem'
    exact List.mem_map.mp hmem'
  · rw [htokens] at hmem
    cases hcall with
    | create hin hroot =>
      rcases mem_applied_create rfl hmem with hold | ⟨hadmin, -⟩
      · exact .inl ⟨record, hold, rfl⟩
      · rw [hrole] at hadmin
        cases hadmin
    | delete hin hroot hparam hother | deleteRoot hin hroot =>
      exact .inl ⟨record, List.mem_of_mem_filter hmem, rfl⟩
    | createRoot hin hdone =>
      rcases mem_applied_create rfl hmem with hold | ⟨-, hmade⟩
      · exact .inl ⟨record, hold, rfl⟩
      · exact .inr ⟨h, _, _, rfl, hin, hmade⟩

-- ============================================================
-- Runs

theorem run_rooted (hr : run (Backend.step setup) (.start world) es = some b) (h : Nat)
    (hroot : (b.requests h).Rooted) : VerifiedRoot setup world es h := by
  have hinv := run_history_invariant (H := fun fs b =>
      run (Backend.step setup) (.start world) fs = some b ∧
        ∀ h, (b.requests h).Rooted → VerifiedRoot setup world fs h)
    [] ⟨rfl, fun h hroot => absurd hroot id⟩ ?_ hr
  · exact hinv.2 h hroot
  · rintro fs b e b' ⟨hrun, hall⟩ hs
    refine ⟨run_concat.mpr ⟨b, hrun, hs⟩, fun h hroot => ?_⟩
    rcases rooted_step hs hroot with hbefore | ⟨req, now, rfl, hrecord⟩
    · exact (hall h hbefore).append [e]
    · exact ⟨fs, req, now, [], b, rfl, hrun, hrecord⟩

end

/-- In any run of requests the token set changes, and infos of tokens are
given out, only in a request that presented a root's token when it was checked;
and a record with role Root comes about only in a rotation.

Premise: `e` is a step taken at the end of a run. -/
theorem only_root_manages_tokens (setup : Setup Data) (world : World Data)
    (es : List (Step Data)) (e : Step Data) (b b' : Backend Data)
    (hr : run (Backend.step setup) (.start world) es = some b)
    (hs : b.step setup e = some b') :
    (¬ SameTokens b'.world.store.tokens b.world.store.tokens →
      ∃ h, e.request = some h ∧ VerifiedRoot setup world es h) ∧
    (∀ h status code message data, b'.requests h = .answered (.api status code message data) →
      data ≠ .none → VerifiedRoot setup world (es ++ [e]) h) ∧
    (∀ record ∈ b'.world.store.tokens, record.role = .root →
      (∀ old ∈ b.world.store.tokens, old.forgetUse ≠ record.forgetUse) →
      ∃ h draw randomHex, e = .resume h draw randomHex ∧ b.requests h = .rotating ∧
        VerifiedRoot setup world es h) := by
  refine ⟨fun hchange => ?_, fun h status code message data hanswer hdata => ?_,
    fun record hmem hrole hnew => ?_⟩
  · rcases tokens_step hs with hsame | ⟨h, e', next, hcall, hreq, -⟩
    · exact absurd hsame hchange
    · exact ⟨h, hreq, run_rooted hr h hcall.rooted⟩
  · refine run_rooted (run_concat.mpr ⟨b, hr, hs⟩) h ?_
    rw [hanswer]
    exact hdata
  · rcases roots_step hs hmem hrole with ⟨old, hold, heq⟩ | ⟨h, draw, randomHex, he, hin, -⟩
    · exact absurd heq (hnew old hold)
    · exact ⟨h, draw, randomHex, he, hin, run_rooted hr h (by rw [hin]; trivial)⟩

-- ============================================================
-- A run of a rotation

def rootRecord : AdminTokenRecord := ⟨"id-root", .root, "secret", "root", 1, none, none⟩

def rootStore : AdminTokenStore := ⟨tokensJson, [rootRecord]⟩

def plainSetup : Setup (List AdminTokenRecord) where
  serde := plainSerde
  verifyToken := (· == ·)
  router := ((AdminBuilder.new false).withAuth rootStore []).build
  overflowChecks := false
  pathParam := .ok

def rootRequest (method : Method) (path : String) : Request (Except Nat CreateTokenRequest) :=
  ⟨method, path, fun name => if name = "x-admin-token" then some (some "secret") else none,
    .error 400⟩

def rotate : Request (Except Nat CreateTokenRequest) :=
  rootRequest .post "/api/admin/tokens/root/rotate"

theorem only_root_manages_tokens_rotate :
    ∃ h, (Step.handle 0 2 plainDraw "00" : Step (List AdminTokenRecord)).request = some h ∧
      VerifiedRoot plainSetup (.start rootStore fun _ => none) [.call 0 rotate 2] h :=
  (only_root_manages_tokens plainSetup (.start rootStore fun _ => none) [.call 0 rotate 2]
    (.handle 0 2 plainDraw "00") _ _ rfl rfl).1 (by decide)

end Rinfra.Admin
