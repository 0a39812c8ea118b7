import Rinfra.Http.Auth

/-!
# Paths that need no token

The JWT middleware and the admin layer both let a request through where an
entry of `exclude_paths` is a string prefix of its path. By whole segments an
entry would cover less: the path itself and what is below it.
-/

namespace Rinfra.Http

open Admin (startsWith AdminAuthLayer AdminTokenRecord)

/-- The JWT middleware lets the path through whatever the token. -/
def BypassesJwt (Claims : Type) (excludePaths : List String) (path : String) : Prop :=
  ∀ (decode : Decode Claims) now secret req, req.path = path →
    ∃ req', authMiddleware decode now ⟨secret, excludePaths⟩ req = .next req'

/-- So does the admin layer. -/
def BypassesAdmin (Body : Type) (excludePaths : List String) (path : String) : Prop :=
  ∀ verifyToken (req : Admin.Request Body) now tokens, req.path = path →
    ∃ info, (AdminAuthLayer.call verifyToken ⟨excludePaths⟩ req now tokens).1 = .inner info

/-- The entry covers the path by whole segments. -/
def CoversSegments (path entry : String) : Prop :=
  entry ≠ "" ∧ (path = entry ∨
    startsWith path entry ∧ (entry.toList.getLast? = some '/' ∨ startsWith path (entry ++ "/")))

instance : Decidable (CoversSegments path entry) :=
  inferInstanceAs (Decidable (_ ∧ (_ ∨ _ ∧ (_ ∨ _))))

/-- The path starts with the entry, but in the middle of a segment. -/
def NearMiss (path entry : String) : Prop := startsWith path entry ∧ ¬CoversSegments path entry

theorem CoversSegments.startsWith (h : CoversSegments path entry) : startsWith path entry := by
  rcases h.2 with rfl | ⟨h, -⟩
  · simp [Admin.startsWith]
  · exact h

theorem bypassesJwt_iff :
    BypassesJwt Claims excludePaths path ↔ excludePaths.any fun p => startsWith path p := by
  constructor
  · intro h
    obtain ⟨req', hreq⟩ := h (fun _ _ _ => .error ⟨false, "InvalidToken"⟩) 0 ""
      ⟨path, fun _ => none, none, none⟩ rfl
    rcases authMiddleware_next hreq with hcovers | ⟨token, claims, -, hclaims⟩
    · exact hcovers
    · cases hclaims
  · rintro h decode now secret req rfl
    exact ⟨req, if_pos h⟩

theorem bypassesAdmin_iff (body : Body) :
    BypassesAdmin Body excludePaths path ↔ excludePaths.any fun p => startsWith path p := by
  constructor
  · intro h
    obtain ⟨info, hinfo⟩ := h (fun _ _ => false) ⟨.get, path, fun _ => none, body⟩ 0 [] rfl
    by_contra hcovers
    have hcall : AdminAuthLayer.call (fun _ _ => false) ⟨excludePaths⟩
        ⟨.get, path, fun _ => none, body⟩ 0 [] = (.unauthorized, []) := by
      simp [AdminAuthLayer.call, AdminAuthLayer.covers, hcovers, Admin.extractToken]
    rw [hcall] at hinfo
    cases hinfo
  · rintro h verifyToken req now tokens rfl
    have hcovers : (AdminAuthLayer.mk excludePaths).covers req.path := h
    exact ⟨none, by rw [AdminAuthLayer.call, if_pos hcovers]⟩

theorem covered_iff_segments (excludePaths : List String) (path : String) :
    ((excludePaths.any fun p => startsWith path p) ↔ ∃ p ∈ excludePaths, CoversSegments path p) ↔
      ∀ p ∈ excludePaths, NearMiss path p → ∃ q ∈ excludePaths, CoversSegments path q := by
  simp only [List.any_eq_true]
  constructor
  · exact fun h p hp hmiss => h.mp ⟨p, hp, hmiss.1⟩
  · intro h
    constructor
    · rintro ⟨p, hp, hstarts⟩
      by_cases hcovers : CoversSegments path p
      · exact ⟨p, hp, hcovers⟩
      · exact h p hp ⟨hstarts, hcovers⟩
    · rintro ⟨p, hp, hcovers⟩
      exact ⟨p, hp, hcovers.startsWith⟩

/-- Both layers exempt a path by whole segments exactly where each entry that
ends within a segment of it comes with one that covers it. -/
theorem bypasses_by_segments_iff (Claims : Type) (body : Body) (excludePaths : List String)
    (path : String) :
    ((BypassesJwt Claims excludePaths path ↔ ∃ p ∈ excludePaths, CoversSegments path p) ∧
      (BypassesAdmin Body excludePaths path ↔ ∃ p ∈ excludePaths, CoversSegments path p)) ↔
      ∀ p ∈ excludePaths, NearMiss path p → ∃ q ∈ excludePaths, CoversSegments path q := by
  rw [bypassesJwt_iff, bypassesAdmin_iff body, and_self]
  exact covered_iff_segments excludePaths path

/-- The entry for `/health` lets a path through that it does not cover. -/
theorem health_exempts_near_miss :
    (∃ p ∈ ["/health"], NearMiss "/healthXYZ" p) ∧
      BypassesJwt String ["/health"] "/healthXYZ" ∧ BypassesAdmin Unit ["/health"] "/healthXYZ" ∧
      ¬∃ p ∈ ["/health"], CoversSegments "/healthXYZ" p := by
  refine ⟨⟨"/health", List.mem_cons_self, by decide, by decide⟩, ?_, ?_, by decide⟩
  · exact bypassesJwt_iff.mpr (by decide)
  · exact (bypassesAdmin_iff ()).mpr (by decide)

end Rinfra.Http
