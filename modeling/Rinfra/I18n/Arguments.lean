import Rinfra.Lib.Templates

/-!
# Arguments of messages

`t_args` replaces the placeholder of one argument after the other, in the order in
which the map gives them. What a value has brought into the message is there when
the next placeholder is replaced.
-/

namespace Rinfra

structure I18n where
  t : String → String → String

namespace I18n

open Lib

/-- The entries of a `HashMap`. Any order of them is one in which it may be iterated. -/
structure Args where
  entries : List (String × String)
  nodup : (entries.map Prod.fst).Nodup

/-- `str::replace`, of a pattern that is not empty -/
def replace (s pattern value : String) : String :=
  String.ofList (Lib.replace s.toList pattern.toList value.toList)

def placeholder (k : String) : String := "\x7b" ++ k ++ "\x7d"

/-- `order` is the one in which the map is iterated. -/
def tArgs (i : I18n) (key locale : String) (order : List (String × String)) : String :=
  order.foldl (fun msg (k, v) => replace msg (placeholder k) v) (i.t key locale)

def chars (entry : String × String) : List Char × List Char := (entry.1.toList, entry.2.toList)

/-- Every placeholder that has a value is replaced by it. A placeholder is a name in
braces, without braces in the name. -/
def Args.substitute (args : Args) (template : String) : String :=
  String.ofList (Lib.substitute (fun n => (args.entries.map chars).lookup n) template.toList)

/-- The result is that of substituting all arguments at once, whatever the order, and
nothing is ever replaced but placeholders of the template. -/
structure Simultaneous (i : I18n) (key locale : String) (args : Args) : Prop where
  result : ∀ order : List (String × String), order.Perm args.entries →
    i.tArgs key locale order = args.substitute (i.t key locale)
  own : ∀ order : List (String × String), order.Perm args.entries →
    OnlyHoles (order.map chars) (markedOf (pieces (i.t key locale).toList))

section
variable {args : Args}

theorem replace_toList (s k v : String) :
    (replace s (placeholder k) v).toList = Lib.replace s.toList (bracketed k.toList) v.toList := by
  simp [replace, placeholder, bracketed]

theorem foldl_replace_toList (order : List (String × String)) (s : String) :
    (order.foldl (fun msg (k, v) => replace msg (placeholder k) v) s).toList =
      (order.map chars).foldl (fun s entry => Lib.replace s (bracketed entry.1) entry.2)
        s.toList := by
  induction order generalizing s with
  | nil => rfl
  | cons entry order ih =>
    rw [List.foldl_cons, ih, replace_toList, List.map_cons, List.foldl_cons, chars]

/-- The marks of the template follow what `t_args` does to it. -/
theorem tArgs_marked (i : I18n) (key locale : String) (order : List (String × String)) :
    ((order.map chars).foldl replaceMarked (markedOf (pieces (i.t key locale).toList))).map
      Prod.fst = (i.tArgs key locale order).toList := by
  rw [foldl_replaceMarked_text, markedOf_text, textOf_pieces, tArgs, foldl_replace_toList]

theorem Args.nodup_chars (args : Args) : ((args.entries.map chars).map Prod.fst).Nodup := by
  have hnodup : ((args.entries.map Prod.fst).map String.toList).Nodup :=
    List.Nodup.map (fun _ _ h => String.toList_inj.mp h) args.nodup
  simpa [chars, Function.comp_def] using hnodup

theorem exists_order {order : List (List Char × List Char)}
    (h : order.Perm (args.entries.map chars)) :
    ∃ order' : List (String × String), order'.Perm args.entries ∧ order'.map chars = order := by
  let strings (entry : List Char × List Char) : String × String :=
    (String.ofList entry.1, String.ofList entry.2)
  refine ⟨order.map strings, ?_, ?_⟩
  · have hperm := h.map strings
    rwa [List.map_map, show strings ∘ chars = id from funext fun e => by simp [strings, chars],
      List.map_id] at hperm
  · rw [List.map_map, show chars ∘ strings = id from funext fun e => by simp [strings, chars],
      List.map_id]

theorem noneMade_of_simultaneous {i : I18n} {key locale : String}
    (h : i.Simultaneous key locale args) :
    NoneMade (args.entries.map chars) (pieces (i.t key locale).toList) := by
  refine (onlyHoles_iff (braceless_pieces _) args.nodup_chars).mp fun order hperm => ?_
  obtain ⟨strings, hstrings, rfl⟩ := exists_order hperm
  exact h.own strings hstrings

theorem simultaneous_of_noneMade {i : I18n} {key locale : String}
    (h : NoneMade (args.entries.map chars) (pieces (i.t key locale).toList)) :
    i.Simultaneous key locale args := by
  have hown : ∀ order : List (String × String), order.Perm args.entries →
      OnlyHoles (order.map chars) (markedOf (pieces (i.t key locale).toList)) :=
    fun order hperm =>
      (onlyHoles_iff (braceless_pieces _) args.nodup_chars).mpr h _ (hperm.map chars)
  refine ⟨fun order hperm => ?_, hown⟩
  rw [← String.toList_inj, tArgs, foldl_replace_toList,
    foldl_replace_eq args.nodup_chars (hperm.map chars) (hown order hperm), Args.substitute,
    String.toList_ofList]

/-- Arguments are substituted at once if and only if, whichever of them are put in, the
message has the placeholder of another nowhere but where the template has it. -/
theorem simultaneous_iff (i : I18n) (key locale : String) (args : Args) :
    i.Simultaneous key locale args ↔
      NoneMade (args.entries.map chars) (pieces (i.t key locale).toList) :=
  ⟨noneMade_of_simultaneous, simultaneous_of_noneMade⟩

/-- A value that has the placeholder of another argument in it. -/
def chained : Args := ⟨[("a", "{b}"), ("b", "x")], by decide⟩

/-- It is taken for one or not, as the map is iterated. -/
theorem value_taken_for_placeholder :
    tArgs ⟨fun _ _ => "{a}"⟩ "key" "en" [("a", "{b}"), ("b", "x")] = "x" ∧
    tArgs ⟨fun _ _ => "{a}"⟩ "key" "en" [("b", "x"), ("a", "{b}")] = "{b}" ∧
    chained.substitute "{a}" = "{b}" ∧
    ¬ Simultaneous ⟨fun _ _ => "{a}"⟩ "key" "en" chained := by
  have htaken : tArgs ⟨fun _ _ => "{a}"⟩ "key" "en" [("a", "{b}"), ("b", "x")] = "x" := by
    decide +kernel
  have hbrought : chained.substitute "{a}" = "{b}" := by
    decide +kernel
  refine ⟨htaken, by decide +kernel, hbrought, fun h => ?_⟩
  have hresult := h.result _ (List.Perm.refl _)
  exact absurd (htaken.symm.trans (hresult.trans hbrought)) (by decide)

/-- Values without opening braces are safe in a message whose opening braces are those
of placeholders. -/
theorem simultaneous_of_braceless {i : I18n} {key locale : String}
    (htemplate : .lit '{' ∉ pieces (i.t key locale).toList)
    (hvalues : ∀ entry ∈ args.entries, '}' ∉ entry.1.toList ∧ '{' ∉ entry.2.toList) :
    i.Simultaneous key locale args := by
  refine simultaneous_of_noneMade (noneMade_of_braceless (braceless_pieces _) htemplate ?_)
  intro entry hmem
  obtain ⟨strings, hstrings, rfl⟩ := List.mem_map.mp hmem
  exact hvalues strings hstrings

end

end I18n

end Rinfra
