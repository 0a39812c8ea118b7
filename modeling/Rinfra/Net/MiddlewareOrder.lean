import Mathlib.Data.Int.Order.Basic
import Rinfra.Lib.StableSort
import Rinfra.Net.Tcp

/-!
# The order of middlewares

The registries of the HTTP and the TCP middlewares are hash maps, and so their
values come in an order that differs from process to process. Both are sorted by the
orders of the middlewares, the TCP registry in both directions, and the sort leaves
middlewares of one order as they come.
-/

namespace Rinfra.Net

open Lib

-- ---------------------------------------------------------------------------
-- Registries
-- ---------------------------------------------------------------------------

section
variable {M : Type} (name : M → String)

/-- A `HashMap` of middlewares by their names. Any order of them is one in which its
values may come. -/
structure MiddlewareMap where
  middlewares : List M
  distinct : (middlewares.map name).Nodup

namespace MiddlewareMap

def new : MiddlewareMap name := ⟨[], List.nodup_nil⟩

variable {name}

/-- The orders in which `values()` may give the middlewares. -/
def Values (reg : MiddlewareMap name) (values : List M) : Prop := values.Perm reg.middlewares

theorem distinct_push {middlewares : List M} (h : (middlewares.map name).Nodup)
    (hfree : ¬ ∃ m ∈ middlewares, name m = name mw) :
    ((middlewares ++ [mw]).map name).Nodup := by
  rw [List.map_append, List.map_singleton]
  refine List.nodup_append.mpr ⟨h, List.nodup_singleton _, fun x hx y hy hxy => hfree ?_⟩
  obtain ⟨m, hm, rfl⟩ := List.mem_map.mp hx
  exact ⟨m, hm, hxy.trans (List.mem_singleton.mp hy)⟩

/-- `register`, with the word that its error begins with. -/
def register (kind : String) (reg : MiddlewareMap name) (mw : M) :
    Except AppError (MiddlewareMap name) :=
  if h : ∃ m ∈ reg.middlewares, name m = name mw then
    .error ⟨.pluginAlreadyRegistered, s!"{kind} middleware '{name mw}' already registered"⟩
  else .ok ⟨reg.middlewares ++ [mw], distinct_push reg.distinct h⟩

/-- One call after the other; a call that is refused leaves the registry as it is. -/
def registerAll (register : MiddlewareMap name → M → Except AppError (MiddlewareMap name))
    (reg : MiddlewareMap name) : List M → MiddlewareMap name
  | [] => reg
  | mw :: mws => registerAll register ((register reg mw).toOption.getD reg) mws

end MiddlewareMap

end

/-- `apply` on the router, whose type is erased. -/
structure HttpMiddleware (Router : Type) where
  name : String
  order : Int
  apply : Router → Except AppError Router

abbrev HttpMiddlewareRegistry (Router : Type) :=
  MiddlewareMap (@HttpMiddleware.name Router)

abbrev TcpMiddlewareRegistry := MiddlewareMap TcpMiddleware.name

namespace HttpMiddlewareRegistry

variable {Router : Type}

def register (reg : HttpMiddlewareRegistry Router) (mw : HttpMiddleware Router) :
    Except AppError (HttpMiddlewareRegistry Router) := MiddlewareMap.register "http" reg mw

def registered (calls : List (HttpMiddleware Router)) : HttpMiddlewareRegistry Router :=
  MiddlewareMap.registerAll register (.new _) calls

def sorted (values : List (HttpMiddleware Router)) : List (HttpMiddleware Router) :=
  sortByKey HttpMiddleware.order values

def applyAll (values : List (HttpMiddleware Router)) (router : Router) : Except AppError Router :=
  (sorted values).foldlM (fun router mw => mw.apply router) router

end HttpMiddlewareRegistry

namespace TcpMiddlewareRegistry

def register (reg : TcpMiddlewareRegistry) (mw : TcpMiddleware) :
    Except AppError TcpMiddlewareRegistry := MiddlewareMap.register "tcp" reg mw

def registered (calls : List TcpMiddleware) : TcpMiddlewareRegistry :=
  MiddlewareMap.registerAll register (.new _) calls

def sorted (values : List TcpMiddleware) : List TcpMiddleware :=
  sortByKey TcpMiddleware.order values

/-- `sort_by_key` with `Reverse` of the order. -/
def sortedRev (values : List TcpMiddleware) : List TcpMiddleware :=
  sortByKey (reverseKey TcpMiddleware.order) values

end TcpMiddlewareRegistry

-- ---------------------------------------------------------------------------
-- What is registered
-- ---------------------------------------------------------------------------

section
variable {M : Type} {name : M → String}

def firsts (name : M → String) : List M → List M
  | [] => []
  | mw :: mws => mw :: (firsts name mws).filter (name · ≠ name mw)

theorem nodup_of_distinct (reg : MiddlewareMap name) : reg.middlewares.Nodup :=
  .of_map name reg.distinct

/-- What a sequence of calls adds to a registry: the first of each name that it does not
have. -/
theorem registerAll_middlewares (kind : String) (reg : MiddlewareMap name) (calls : List M) :
    (reg.registerAll (MiddlewareMap.register kind) calls).middlewares = reg.middlewares ++
      (firsts name calls).filter (name · ∉ reg.middlewares.map name) := by
  induction calls generalizing reg with
  | nil => simp [MiddlewareMap.registerAll, firsts]
  | cons mw mws ih =>
    rw [MiddlewareMap.registerAll, firsts, ih]
    by_cases htaken : ∃ m ∈ reg.middlewares, name m = name mw
    · have hrefused : (reg.register kind mw).toOption.getD reg = reg := by
        simp only [MiddlewareMap.register, htaken, ↓reduceDIte]
        rfl
      have hmem : name mw ∈ reg.middlewares.map name := List.mem_map.mpr htaken
      rw [hrefused, List.filter_cons_of_neg (by simpa using hmem), List.filter_filter]
      congr 1
      refine List.filter_congr fun other _ => ?_
      by_cases hname : name other = name mw <;> simp [hname, htaken]
    · have hadded : ((reg.register kind mw).toOption.getD reg).middlewares =
          reg.middlewares ++ [mw] := by
        simp only [MiddlewareMap.register, htaken, ↓reduceDIte]
        rfl
      have hmem : name mw ∉ reg.middlewares.map name := fun h => htaken (List.mem_map.mp h)
      rw [hadded, List.filter_cons_of_pos (by simpa using hmem), List.filter_filter,
        List.append_assoc, List.singleton_append]
      refine congrArg (reg.middlewares ++ mw :: ·) (List.filter_congr fun other _ => ?_)
      have hnames : name other ∈ (reg.middlewares ++ [mw]).map name ↔
          name other ∈ reg.middlewares.map name ∨ name other = name mw := by
        rw [List.map_append, List.mem_append, List.map_singleton, List.mem_singleton]
      rw [← Bool.decide_and, decide_eq_decide, hnames, not_or]

theorem registerAll_new (kind : String) (calls : List M) :
    ((MiddlewareMap.new name).registerAll (MiddlewareMap.register kind) calls).middlewares =
      firsts name calls := by
  rw [registerAll_middlewares]
  simp [MiddlewareMap.new]

end

-- ---------------------------------------------------------------------------
-- Orders that differ
-- ---------------------------------------------------------------------------

/-- However the values come, the layers are the same. -/
def HttpMiddlewareRegistry.Determined {Router : Type} (reg : HttpMiddlewareRegistry Router) :
    Prop :=
  ∀ values values', reg.Values values → reg.Values values' →
    sorted values = sorted values' ∧ ∀ router, applyAll values router = applyAll values' router

namespace TcpMiddlewareRegistry

def Determined (reg : TcpMiddlewareRegistry) : Prop :=
  ∀ values values', reg.Values values → reg.Values values' → sorted values = sorted values'

/-- The one sort is the reverse of the other, in a process where both have the values as
they come. -/
def Mirrored (reg : TcpMiddlewareRegistry) : Prop :=
  ∀ values, reg.Values values → sortedRev values = (sorted values).reverse

end TcpMiddlewareRegistry

theorem HttpMiddlewareRegistry.determined_iff {Router : Type}
    (reg : HttpMiddlewareRegistry Router) :
    reg.Determined ↔ (reg.middlewares.map HttpMiddleware.order).Nodup := by
  rw [← sortByKey_determined_iff (nodup_of_distinct reg)]
  constructor
  · exact fun h values values' hv hv' => (h values values' hv hv').1
  · intro h values values' hv hv'
    have hsame : sorted values = sorted values' := h values values' hv hv'
    exact ⟨hsame, fun router => by rw [applyAll, applyAll, hsame]⟩

namespace TcpMiddlewareRegistry

theorem determined_iff (reg : TcpMiddlewareRegistry) :
    reg.Determined ↔ (reg.middlewares.map TcpMiddleware.order).Nodup :=
  sortByKey_determined_iff (nodup_of_distinct reg)

theorem mirrored_iff (reg : TcpMiddlewareRegistry) :
    reg.Mirrored ↔ (reg.middlewares.map TcpMiddleware.order).Nodup := by
  constructor
  · intro h
    exact (sortByKey_mirrored_iff (nodup_of_distinct reg)).mp (h _ (.refl _))
  · intro hkeys values hvalues
    exact sortByKey_reverseKey ((hvalues.map _).nodup_iff.mpr hkeys)

end TcpMiddlewareRegistry

/-- The layers depend on nothing but what is registered, and the TCP registry is
sorted one way as the other in reverse, exactly where no two of the middlewares that are
registered first of their names have the same order. -/
theorem middleware_order_iff {Router : Type} (http : List (HttpMiddleware Router))
    (tcp : List TcpMiddleware) :
    ((HttpMiddlewareRegistry.registered http).Determined ↔
      ((firsts HttpMiddleware.name http).map HttpMiddleware.order).Nodup) ∧
    ((TcpMiddlewareRegistry.registered tcp).Determined ↔
      ((firsts TcpMiddleware.name tcp).map TcpMiddleware.order).Nodup) ∧
    ((TcpMiddlewareRegistry.registered tcp).Mirrored ↔
      ((firsts TcpMiddleware.name tcp).map TcpMiddleware.order).Nodup) := by
  have hhttp : (HttpMiddlewareRegistry.registered http).middlewares =
      firsts HttpMiddleware.name http := registerAll_new "http" http
  have htcp : (TcpMiddlewareRegistry.registered tcp).middlewares =
      firsts TcpMiddleware.name tcp := registerAll_new "tcp" tcp
  rw [← hhttp, ← htcp]
  exact ⟨HttpMiddlewareRegistry.determined_iff _, TcpMiddlewareRegistry.determined_iff _,
    TcpMiddlewareRegistry.mirrored_iff _⟩

def namedLayer (name : String) (order : Int) : HttpMiddleware (List String) where
  name
  order
  apply router := .ok (name :: router)

def namedHook (name : String) (order : Int) : TcpMiddleware where
  name
  order
  onConnect := .ok ()
  onInbound _ data := .ok (some data)
  onOutbound _ data := .ok (some data)

/-- Two middlewares of one order are layered as they come, and disconnected in the order
in which they were connected. -/
theorem equal_orders_undetermined :
    ¬ (HttpMiddlewareRegistry.registered
        [namedLayer "auth" 20, namedLayer "tenant" 20]).Determined ∧
      ¬ (TcpMiddlewareRegistry.registered [namedHook "audit" 50, namedHook "quota" 50]).Determined ∧
      ¬ (TcpMiddlewareRegistry.registered
        [namedHook "audit" 50, namedHook "quota" 50]).Mirrored := by
  rw [HttpMiddlewareRegistry.determined_iff, TcpMiddlewareRegistry.determined_iff,
    TcpMiddlewareRegistry.mirrored_iff]
  decide

end Rinfra.Net
