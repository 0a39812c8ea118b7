import Rinfra.Admin.Durability

/-!
# The store's calls, each from its start to its end

The same calls as in the store's step function, but each as one function, for
what is said of a call that nothing else runs beside. `Call.run_alone` takes
such a call back to the steps.
-/

namespace Rinfra.Admin

open Rinfra.Lib

-- ============================================================
-- The calls

structure Host (Data : Type) where
  store : AdminTokenStore
  files : PathBuf → Option Data

/-- The step of `persist` that fails. A failed write leaves anything at all
behind. -/
inductive Fault (Data : Type)
  | makeDir (e : String)
  | write (e : String) (leftover : Option Data)
  | rename (e : String)

/-- What a new record takes from outside: `hash_password` with the salt drawn
for it, its id and the time. -/
structure Draw where
  hashPassword : String → Except String String
  id : String
  now : Nat

def plainDraw : Draw := ⟨.ok, "id-a", 1⟩

def AdminTokenStore.tmp (store : AdminTokenStore) : PathBuf := store.path.withExtension "tmp"

def AdminTokenStore.hasRoot (store : AdminTokenStore) : Bool :=
  store.tokens.any fun t => t.role = .root

def generateToken (role : AdminRole) (randomHex : String) : String :=
  match role with
  | .root => s!"rinfra_root_{randomHex}"
  | .admin => s!"rinfra_admin_{randomHex}"

def hashToken (draw : Draw) (plaintext : String) : Except String String :=
  match draw.hashPassword plaintext with
  | .ok tokenHash => .ok tokenHash
  | .error e => .error s!"hash failed: {e}"

def Host.setTokens (host : Host Data) (tokens : List AdminTokenRecord) : Host Data :=
  { host with store := { host.store with tokens } }

def Host.persist (serde : Serde Data) (fault : Option (Fault Data)) (host : Host Data) :
    Except String Unit × Host Data :=
  match serde.toStringPretty host.store.tokens with
  | .error e => (.error s!"serialize failed: {e}", host)
  | .ok data =>
    match fault with
    | some (.makeDir e) => (.error s!"mkdir failed: {e}", host)
    | some (.write e leftover) =>
      (.error s!"write tmp failed: {e}",
        { host with files := Function.update host.files host.store.tmp leftover })
    | some (.rename e) =>
      (.error s!"rename failed: {e}",
        { host with files := Function.update host.files host.store.tmp (some data) })
    | none =>
      let files := Function.update host.files host.store.tmp (some data)
      (.ok (), { host with files := renameFile files host.store.tmp host.store.path })

def newRecord (draw : Draw) (role : AdminRole) (label tokenHash : String)
    (expiresAt : Option Nat) : AdminTokenRecord :=
  ⟨draw.id, role, tokenHash, label, draw.now, none, expiresAt⟩

def Host.createTokenWithValue (serde : Serde Data) (draw : Draw) (fault : Option (Fault Data))
    (role : AdminRole) (label plaintext : String) (expiresAt : Option Nat) (host : Host Data) :
    Except String AdminTokenInfo × Host Data :=
  match hashToken draw plaintext with
  | .error e => (.error e, host)
  | .ok tokenHash =>
    let record := newRecord draw role label tokenHash expiresAt
    let (result, host) := (host.setTokens (host.store.tokens ++ [record])).persist serde fault
    (result.map fun _ => record.info, host)

def Host.createToken (serde : Serde Data) (draw : Draw) (fault : Option (Fault Data))
    (role : AdminRole) (label : String) (expiresAt : Option Nat) (randomHex : String)
    (host : Host Data) : Except String (String × AdminTokenInfo) × Host Data :=
  let plaintext := generateToken role randomHex
  let (result, host) := host.createTokenWithValue serde draw fault role label plaintext expiresAt
  (result.map fun info => (plaintext, info), host)

def Host.delete (serde : Serde Data) (fault : Option (Fault Data)) (id : String)
    (host : Host Data) : Except String Bool × Host Data :=
  let tokens := host.store.tokens.filter fun t => t.id ≠ id
  if tokens.length < host.store.tokens.length then
    let (result, host) := (host.setTokens tokens).persist serde fault
    (result.map fun _ => true, host)
  else (.ok false, host.setTokens tokens)

def Host.deleteRoot (serde : Serde Data) (fault : Option (Fault Data)) (host : Host Data) :
    Except String Unit × Host Data :=
  (host.setTokens (host.store.tokens.filter fun t => t.role ≠ .root)).persist serde fault

inductive Call
  | createToken (role : AdminRole) (label : String) (expiresAt : Option Nat) (randomHex : String)
  | createTokenWithValue (role : AdminRole) (label plaintext : String) (expiresAt : Option Nat)
  | delete (id : String)
  | deleteRoot

def Call.run (serde : Serde Data) (draw : Draw) (fault : Option (Fault Data)) (call : Call)
    (host : Host Data) : Except String Reply × Host Data :=
  match call with
  | .createToken role label expiresAt randomHex =>
    let (result, host) := host.createToken serde draw fault role label expiresAt randomHex
    (result.map fun r => .created r.2, host)
  | .createTokenWithValue role label plaintext expiresAt =>
    let (result, host) :=
      host.createTokenWithValue serde draw fault role label plaintext expiresAt
    (result.map .created, host)
  | .delete id =>
    let (result, host) := host.delete serde fault id
    (result.map .deleted, host)
  | .deleteRoot =>
    let (result, host) := host.deleteRoot serde fault
    (result.map fun _ => .rootDeleted, host)

-- ============================================================
-- The calls as runs of the steps

def Event.OfCall (c : Nat) : Event Data → Prop
  | .create c' .. | .delete c' _ | .deleteRoot c' | .snapshot c' | .makeDir c' _
  | .write c' _ | .rename c' _ => c' = c
  | .verify .. => False

def Event.applied (verifyToken : String → String → Bool) (tokens : List AdminTokenRecord) :
    Event Data → List AdminTokenRecord
  | .create _ role label expiresAt (.ok tokenHash) id now =>
    tokens ++ [⟨id, role, tokenHash, label, now, none, expiresAt⟩]
  | .delete _ id => tokens.filter fun t => t.id ≠ id
  | .deleteRoot _ => tokens.filter fun t => t.role ≠ .root
  | .verify plaintext now => (Admin.verify verifyToken plaintext now tokens).2
  | _ => tokens

/-- The call has gone from `w` to its end through its own steps alone. -/
def RunsAlone (serde : Serde Data) (verifyToken : String → String → Bool) (c : Nat)
    (w : World Data) (r : Except String Reply × Host Data) : Prop :=
  ∃ es, (∀ e ∈ es, Event.OfCall c e) ∧
    run (step serde verifyToken) w es =
      some ⟨r.2.store, r.2.files, Function.update w.calls c (.done r.1)⟩

section
variable {Data : Type} {serde : Serde Data} {verifyToken : String → String → Bool}
  {w : World Data}

theorem step_frame (h : step serde verifyToken w e = some w') :
    w'.store.tokens = e.applied verifyToken w.store.tokens ∧
      ∀ c, ¬ Event.OfCall c e → w'.calls c = w.calls c := by
  cases e with
  | create c role label expiresAt hash id now =>
    simp only [step] at h
    split at h
    · split at h <;> cases h <;> exact ⟨rfl, fun c' hc => goto_of_ne (Ne.symm hc)⟩
    · cases h
  | delete c id =>
    simp only [step] at h
    split at h
    · split at h <;> cases h <;> exact ⟨rfl, fun c' hc => goto_of_ne (Ne.symm hc)⟩
    · cases h
  | deleteRoot c =>
    simp only [step] at h
    split at h <;> cases h
    exact ⟨rfl, fun c' hc => goto_of_ne (Ne.symm hc)⟩
  | verify plaintext now =>
    cases h
    exact ⟨rfl, fun c' hc => rfl⟩
  | snapshot c | makeDir c failure | write c failure =>
    simp only [step] at h
    split at h
    · split at h <;> cases h <;> exact ⟨rfl, fun c' hc => goto_of_ne (Ne.symm hc)⟩
    · cases h
  | rename c failure =>
    simp only [step] at h
    split at h
    · split at h
      · split at h <;> cases h
        exact ⟨rfl, fun c' hc => goto_of_ne (Ne.symm hc)⟩
      · cases h
        exact ⟨rfl, fun c' hc => goto_of_ne (Ne.symm hc)⟩
    · cases h

theorem persist_alone (hc : w.calls c = .persisting reply) (fault : Option (Fault Data)) :
    RunsAlone serde verifyToken c w
      ((Host.persist serde fault ⟨w.store, w.files⟩).map (·.map fun _ => reply) id) := by
  cases hser : serde.toStringPretty w.store.tokens with
  | error e =>
    refine ⟨[.snapshot c], by simp [Event.OfCall], ?_⟩
    simp [run, step, hc, hser, Host.persist, World.goto, Except.map]
  | ok data =>
    cases fault with
    | none =>
      refine ⟨[.snapshot c, .makeDir c none, .write c none, .rename c none],
        by simp [Event.OfCall], ?_⟩
      simp [run, step, hc, hser, Host.persist, World.goto, World.tmp, AdminTokenStore.tmp,
        Except.map]
    | some fault =>
      cases fault with
      | makeDir e =>
        refine ⟨[.snapshot c, .makeDir c (some e)], by simp [Event.OfCall], ?_⟩
        simp [run, step, hc, hser, Host.persist, World.goto, Except.map]
      | write e leftover =>
        refine ⟨[.snapshot c, .makeDir c none, .write c (some (e, leftover))],
          by simp [Event.OfCall], ?_⟩
        simp [run, step, hc, hser, Host.persist, World.goto, World.tmp, AdminTokenStore.tmp,
          Except.map]
      | rename e =>
        refine ⟨[.snapshot c, .makeDir c none, .write c none, .rename c (some e)],
          by simp [Event.OfCall], ?_⟩
        simp [run, step, hc, hser, Host.persist, World.goto, World.tmp, AdminTokenStore.tmp,
          Except.map]

theorem RunsAlone.cons (hof : Event.OfCall c e) (hs : step serde verifyToken w e = some w')
    (hcalls : w'.calls = Function.update w.calls c p)
    (h : RunsAlone serde verifyToken c w' r) : RunsAlone serde verifyToken c w r := by
  obtain ⟨es, hall, hrun⟩ := h
  refine ⟨e :: es, by simpa [hof] using hall, run_cons.mpr ⟨w', hs, ?_⟩⟩
  rw [hrun, hcalls, Function.update_idem]

theorem RunsAlone.last (hof : Event.OfCall c e)
    (hs : step serde verifyToken w e =
      some ⟨r.2.store, r.2.files, Function.update w.calls c (.done r.1)⟩) :
    RunsAlone serde verifyToken c w r :=
  ⟨[e], by simpa using hof, run_cons.mpr ⟨_, hs, rfl⟩⟩

theorem except_map_map (x : Except ε α) (f : α → β) (g : β → γ) :
    (x.map f).map g = x.map fun a => g (f a) := by
  cases x <;> rfl

theorem RunsAlone.persisting (tokens : List AdminTokenRecord) (reply : Reply)
    (hof : Event.OfCall c e)
    (hs : step serde verifyToken w e =
      some ((w.setTokens tokens).goto c (.persisting reply))) (fault : Option (Fault Data)) :
    RunsAlone serde verifyToken c w
      (((Host.setTokens ⟨w.store, w.files⟩ tokens).persist serde fault).map
        (·.map fun _ => reply) id) :=
  .cons hof hs rfl (persist_alone goto_same fault)

theorem create_alone (hc : w.calls c = .idle) (draw : Draw) (fault : Option (Fault Data))
    (role : AdminRole) (label plaintext : String) (expiresAt : Option Nat) :
    RunsAlone serde verifyToken c w
      ((Host.createTokenWithValue serde draw fault role label plaintext expiresAt
        ⟨w.store, w.files⟩).map (·.map .created) id) := by
  cases hhash : draw.hashPassword plaintext with
  | error e =>
    refine .last (e := .create c role label expiresAt (.error e) draw.id draw.now) rfl ?_
    simp [step, hc, Host.createTokenWithValue, hashToken, hhash, Except.map, World.goto]
  | ok tokenHash =>
    let record := newRecord draw role label tokenHash expiresAt
    have h : RunsAlone serde verifyToken c w _ :=
      .persisting (e := .create c role label expiresAt (.ok tokenHash) draw.id draw.now)
        (w.store.tokens ++ [record]) (.created record.info) rfl
        (by simp [step, hc, newRecord, record]) fault
    simpa [Host.createTokenWithValue, hashToken, hhash, Prod.map, except_map_map] using h

/-- The function a call is modelled by is what its own steps do when no other
call's come between. -/
theorem Call.run_alone (call : Call) (hc : w.calls c = .idle) (draw : Draw)
    (fault : Option (Fault Data)) :
    RunsAlone serde verifyToken c w (call.run serde draw fault ⟨w.store, w.files⟩) := by
  cases call with
  | createToken role label expiresAt randomHex =>
    have h : RunsAlone serde verifyToken c w _ :=
      create_alone hc draw fault role label (generateToken role randomHex) expiresAt
    simpa [Call.run, Host.createToken, Prod.map, except_map_map] using h
  | createTokenWithValue role label plaintext expiresAt =>
    exact create_alone hc draw fault role label plaintext expiresAt
  | delete id =>
    by_cases hlen : (w.store.tokens.filter fun t => t.id ≠ id).length < w.store.tokens.length
    · have h : RunsAlone serde verifyToken c w _ :=
        .persisting (e := .delete c id) (w.store.tokens.filter fun t => t.id ≠ id)
          (.deleted true) rfl (by simp only [step, hc, if_pos hlen, pure]) fault
      simpa only [Call.run, Host.delete, if_pos hlen, Prod.map, except_map_map, id_eq] using h
    · refine .last (e := .delete c id) rfl ?_
      simp only [step, hc, Call.run, Host.delete, if_neg hlen]
      rfl
  | deleteRoot =>
    exact .persisting (e := .deleteRoot c) _ .rootDeleted rfl (by simp [step, hc]) fault

end

end Rinfra.Admin
