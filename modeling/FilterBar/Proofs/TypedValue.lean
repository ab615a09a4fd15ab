import FilterBar.Completion.Basic
import FilterBar.Proofs.QueryText

/-!
# The value that is being typed

Input of the form `key:COMPARATOR:value` is completed with values for the key.  Of a key that takes
several values only what stands behind the last comma is looked at, of any other key the whole value,
with the colons and commas in it.  Nothing else of the input matters: not the comparator, the values
in front, the keys in use or the blanks at the start.
-/

namespace FilterBar

namespace Text

variable {sep : Char} {s : List Char}

theorem takeWhile_ne_reverse (h : sep ∉ s) (rest : List Char) :
    (s.reverse ++ rest).takeWhile (· != sep) = s.reverse ++ rest.takeWhile (· != sep) := by
  apply List.takeWhile_append_of_pos
  intro c hc
  exact bne_iff_ne.mpr fun heq => h (heq ▸ List.mem_reverse.mp hc)

theorem afterLast_append (before : List Char) (h : sep ∉ s) :
    afterLast sep (before ++ sep :: s) = s := by
  rw [afterLast, List.reverse_append, List.reverse_cons, List.append_assoc,
    takeWhile_ne_reverse h, List.singleton_append, List.takeWhile_cons_of_neg (by simp),
    List.append_nil, List.reverse_reverse]

theorem afterLast_of_notMem (h : sep ∉ s) : afterLast sep s = s := by
  have hall := takeWhile_ne_reverse h []
  rw [List.append_nil, List.takeWhile_nil, List.append_nil] at hall
  rw [afterLast, hall, List.reverse_reverse]

theorem trimStart_append_of_blank {blanks : List Char} (h : blanks.all isBlank = true)
    (s : List Char) : trimStart (blanks ++ s) = trimStart s :=
  List.dropWhile_append_of_pos (List.all_eq_true.mp h)

/-- A text that starts with no blank is left as it is in front of a colon. -/
theorem trimStart_append_colon (h : s.head?.any isBlank = false) (rest : List Char) :
    trimStart (s ++ ':' :: rest) = s ++ ':' :: rest := by
  cases s with
  | nil => exact List.dropWhile_cons_of_neg (by decide)
  | cons c s =>
    have hc : isBlank c = false := h
    exact List.dropWhile_cons_of_neg (by simp [hc])

end Text

/-- Whether several values may be typed for a key of a view, with commas between them. -/
def View.takesSeveral (v : View) (key : String) : Bool :=
  (v.languageKey? key).any (·.multiple)

namespace Completion

variable {score : Scorer} {d : Directory} {v : View} {key op : String}

/-- The input in which a value is being typed behind a key and a comparator. -/
def valueInput (key op value : String) : String :=
  key ++ ":" ++ op ++ ":" ++ value

theorem toList_valueInput (key op value : String) :
    (valueInput key op value).toList =
      key.toList ++ ':' :: (op.toList ++ ':' :: value.toList) := by
  simp [valueInput]

/-! ## What is looked at -/

theorem typedValue_of_takesSeveral (h : v.takesSeveral key = true) (value : List Char) :
    typedValue v key value = Text.afterLast ',' value := by
  rw [View.takesSeveral] at h
  cases hkey : v.languageKey? key with
  | none => simp [hkey] at h
  | some k =>
    have hmultiple : k.multiple = true := by simpa [hkey] using h
    simp only [typedValue, hkey, hmultiple, if_true]

theorem typedValue_of_not_takesSeveral (h : v.takesSeveral key = false) (value : List Char) :
    typedValue v key value = value := by
  rw [View.takesSeveral] at h
  cases hkey : v.languageKey? key with
  | none => simp only [typedValue, hkey]
  | some k =>
    have hsingle : k.multiple = false := by simpa [hkey] using h
    simp only [typedValue, hkey, hsingle, Bool.false_eq_true, if_false]

/-- The first two colons divide the input, so behind a key and a comparator without colon all of
the rest is the value. -/
theorem complete_valueInput (hkey : ':' ∉ key.toList)
    (hstart : key.toList.head?.any Text.isBlank = false) (hop : ':' ∉ op.toList)
    (value : String) (used : List String) :
    complete score d v (valueInput key op value) used =
      values score d v key (String.ofList (typedValue v key value.toList)) := by
  simp only [complete, toList_valueInput, Text.trimStart_append_colon hstart,
    Text.cut?_append hkey, Text.cut?_append hop, String.ofList_toList]

theorem complete_append_of_blank {blanks : String}
    (h : blanks.toList.all Text.isBlank = true) (input : String) (used : List String) :
    complete score d v (blanks ++ input) used = complete score d v input used := by
  simp only [complete, String.toList_append, Text.trimStart_append_of_blank h]

/-! ## Nothing else matters -/

/-- Behind a key and a comparator without colon, the values for what is being typed are offered:
for what stands behind the last comma if the key takes several values, whatever stands in front of
that comma, and for the whole value if it does not, whatever the value.  The answer is the same for
every comparator and all keys in use, and blanks in front of an input never change it. -/
theorem only_typed_value_is_completed (score : Scorer) (d : Directory) (v : View)
    (key op op' : String) (hkey : ':' ∉ key.toList)
    (hstart : key.toList.head?.any Text.isBlank = false)
    (hop : ':' ∉ op.toList) (hop' : ':' ∉ op'.toList) (used used' : List String) :
    (v.takesSeveral key = true → ∀ before before' typed : String, ',' ∉ typed.toList →
      let offered := complete score d v (valueInput key op (before ++ "," ++ typed)) used
      offered = complete score d v (valueInput key op (before' ++ "," ++ typed)) used' ∧
        offered = complete score d v (valueInput key op typed) used' ∧
        offered = values score d v key typed) ∧
    (v.takesSeveral key = false → ∀ value : String,
      complete score d v (valueInput key op value) used = values score d v key value) ∧
    (∀ value : String, complete score d v (valueInput key op value) used =
      complete score d v (valueInput key op' value) used') ∧
    ∀ blanks input : String, blanks.toList.all Text.isBlank = true →
      complete score d v (blanks ++ input) used = complete score d v input used := by
  refine ⟨?_, ?_, ?_, ?_⟩
  · intro hseveral before before' typed hfree
    have halone (used : List String) :
        complete score d v (valueInput key op typed) used = values score d v key typed := by
      rw [complete_valueInput hkey hstart hop, typedValue_of_takesSeveral hseveral,
        Text.afterLast_of_notMem hfree, String.ofList_toList]
    have hbehind (before : String) (used : List String) :
        complete score d v (valueInput key op (before ++ "," ++ typed)) used =
          values score d v key typed := by
      have hlist : (before ++ "," ++ typed).toList = before.toList ++ ',' :: typed.toList := by
        simp
      rw [complete_valueInput hkey hstart hop, typedValue_of_takesSeveral hseveral, hlist,
        Text.afterLast_append _ hfree, String.ofList_toList]
    refine ⟨?_, ?_, hbehind before used⟩
    · rw [hbehind before used, hbehind before' used']
    · rw [hbehind before used, halone used']
  · intro hsingle value
    rw [complete_valueInput hkey hstart hop, typedValue_of_not_takesSeveral hsingle,
      String.ofList_toList]
  · intro value
    rw [complete_valueInput hkey hstart hop, complete_valueInput hkey hstart hop']
  · intro blanks input hblanks
    exact complete_append_of_blank hblanks input used

/-- Of an execution several states may be typed, but one scope, whose value is the whole rest. -/
theorem only_typed_value_is_completed_executions :
    let offered := complete Fuzzy.score? {} .executions
    let killed : Completion := ⟨"KILLED", "KILLED", .value, ""⟩
    offered (valueInput "state" "IN" ("FAILED" ++ "," ++ "killed")) ["scope"] = [killed] ∧
      offered (valueInput "state" "IN" "killed") [] = [killed] ∧
      offered (valueInput "state" "IN" "kil") ["scope"] = offered (valueInput "state" "" "kil") [] ∧
      offered (valueInput "scope" "EQUALS" "a:b,User") [] =
        values Fuzzy.score? {} .executions "scope" "a:b,User" ∧
      offered (" " ++ "scope:EQUALS:user") [] = offered "scope:EQUALS:user" [] := by
  intro offered killed
  have hkilled : values Fuzzy.score? {} .executions "state" "killed" = [killed] := by
    decide +kernel
  obtain ⟨hseveral, -, hcomparator, -⟩ :=
    only_typed_value_is_completed Fuzzy.score? {} .executions "state" "IN" "" (by decide)
      (by decide) (by decide) (by decide) ["scope"] []
  obtain ⟨-, hwhole, -, hblank⟩ :=
    only_typed_value_is_completed Fuzzy.score? {} .executions "scope" "EQUALS" "" (by decide)
      (by decide) (by decide) (by decide) [] []
  obtain ⟨-, halone, hstate⟩ :=
    hseveral (by decide) "FAILED" "" "killed" (by decide)
  have hbehind := hstate.trans hkilled
  refine ⟨hbehind, halone.symm.trans hbehind, hcomparator "kil", ?_, ?_⟩
  · exact hwhole (by decide) "a:b,User"
  · exact hblank " " "scope:EQUALS:user" (by decide)

end Completion

end FilterBar
