import Tqos.Lib.Except
import Tqos.Tserver.Crypto
import Tqos.Tserver.State

/-!
# JSON objects

The values of json-c, the three accessors of `tq_json.c`, and the two functions of json-c that the
server takes on trust: the tokener and the printer are a parameter, `JsonC`. A pointer to an object
is an `Option`, `none` being NULL; json-c represents the JSON value `null` by NULL too.

## The assertions

The accessors assert that the object is not NULL, and nothing before them checks what the tokener
returned. `tqJsonGetInt_ne_error` and its two siblings say that this is the only way they fail.

## Main definitions

* `Json`, `JsonC` — the values, and what is used of the library
* `JsonC.Conforms` — what is assumed of the library where it matters
-/

namespace Tqos

/-- The values of json-c. A floating-point number is its text, which nothing here looks at. -/
inductive Json
  | null
  | bool (b : Bool)
  | int (n : ℤ)
  | double (text : List Char)
  | string (s : List Char)
  | array (l : List Json)
  | object (l : List (List Char × Json))

namespace Json

/-- A string literal as a value. -/
def str (s : String) : Json := .string s.toList

/-- An object with the given fields. -/
def obj (l : List (String × Json)) : Json := .object (l.map fun f => (f.1.toList, f.2))

/-- The pointer that stands for a value. -/
def ptr : Json → Option Json
  | .null => none
  | j => some j

/-- The value a pointer stands for, when it is put into a container. -/
def ofPtr : Option Json → Json
  | none => .null
  | some j => j

end Json

/-- What the server uses of json-c. -/
structure JsonC where
  /-- `json_tokener_parse`: NULL if the text is not JSON. -/
  tokenerParse : List Char → Option Json
  /-- `json_object_to_json_string`. -/
  toJsonString : Json → List Char

/-- No element is `null`. -/
def NoNull (l : List Json) : Prop := ∀ j ∈ l, j ≠ .null

/-- `json_object_object_get_ex`, with NULL for a field that is not there. -/
def jsonObjectObjectGetEx (jo : Json) (name : String) : Option Json :=
  match jo with
  | .object l => (l.lookup name.toList).bind Json.ptr
  | _ => none

/-- The elements if the object is an array, as the callers of `json_object_array_length` see them.
-/
def arrayElems : Option Json → List Json
  | some (.array l) => l
  | _ => []

/-- What json-c promises: the tokener gives NULL exactly on text that is not JSON, and an array that
was printed is read back without a `null` that was not in it. -/
structure JsonC.Conforms (jc : JsonC) (IsJson : List Char → Prop) : Prop where
  parse_eq_none : ∀ t, jc.tokenerParse t = none ↔ ¬ IsJson t
  noNull_print : ∀ l, NoNull l → NoNull (arrayElems (jc.tokenerParse (jc.toJsonString (.array l))))
  parse_nil : arrayElems (jc.tokenerParse ['[', ']']) = []

/-- `json_object_get_string`: anything but a string is printed. -/
def jsonObjectGetString (jc : JsonC) : Option Json → Option (List Char)
  | none => none
  | some (.string s) => some (cstr s)
  | some j => some (jc.toJsonString j)

/-- `json_object_get_int`: a number outside the range is cut to its nearest end. -/
def jsonObjectGetInt (n : ℤ) : ℤ := max (-2 ^ 31) (min n (2 ^ 31 - 1))

/-- `INT_INV`, which stands for an absent number. -/
abbrev intInv : ℤ := 0x7FFFFFF

/-- `tq_json_get_int`. -/
def tqJsonGetInt (jo : Option Json) (name : String) : Except Crash ℤ :=
  match jo with
  | none => .error .assertFail
  | some jo =>
    match jsonObjectObjectGetEx jo name with
    | some (.int n) => .ok (jsonObjectGetInt n)
    | _ => .ok intInv

/-- `tq_json_get_string`. -/
def tqJsonGetString (jo : Option Json) (name : String) : Except Crash (Option (List Char)) :=
  match jo with
  | none => .error .assertFail
  | some jo =>
    match jsonObjectObjectGetEx jo name with
    | some (.string s) => .ok (some (cstr s))
    | _ => .ok none

/-- `tq_json_get_array`: the field, whatever its type. -/
def tqJsonGetArray (jo : Option Json) (name : String) : Except Crash (Option Json) :=
  match jo with
  | none => .error .assertFail
  | some jo => .ok (jsonObjectObjectGetEx jo name)

/-! ## The accessors on an object -/

variable {jo : Option Json} {e : Crash}

/-- The number an object has in a field, as `tq_json_get_int` gives it. -/
def intField (jo : Json) (name : String) : ℤ :=
  match jsonObjectObjectGetEx jo name with
  | some (.int n) => jsonObjectGetInt n
  | _ => intInv

theorem intField_of_int {jo : Json} {name : String} {n : ℤ}
    (h : jsonObjectObjectGetEx jo name = some (.int n)) :
    intField jo name = jsonObjectGetInt n := by
  rw [intField, h]

theorem intField_of_none {jo : Json} {name : String} (h : jsonObjectObjectGetEx jo name = none) :
    intField jo name = intInv := by
  rw [intField, h]

theorem tqJsonGetInt_some (jo : Json) (name : String) :
    tqJsonGetInt (some jo) name = .ok (intField jo name) := by
  rw [tqJsonGetInt, intField]
  split <;> rfl

theorem exists_tqJsonGetString (jo : Json) (name : String) :
    ∃ str, tqJsonGetString (some jo) name = .ok str := by
  rw [tqJsonGetString]
  split <;> exact ⟨_, rfl⟩

theorem Json.ptr_ne_none {j : Json} (h : j ≠ .null) : j.ptr ≠ none := by
  cases j with
  | null => exact absurd rfl h
  | _ => exact nofun

/-- On an object that is there no accessor fails. -/
theorem tqJsonGetInt_ne_error (h : jo ≠ none) (name : String) :
    tqJsonGetInt jo name ≠ .error e := by
  obtain ⟨j, rfl⟩ := Option.ne_none_iff_exists'.mp h
  rw [tqJsonGetInt]
  split <;> exact nofun

theorem tqJsonGetString_ne_error (h : jo ≠ none) (name : String) :
    tqJsonGetString jo name ≠ .error e := by
  obtain ⟨j, rfl⟩ := Option.ne_none_iff_exists'.mp h
  rw [tqJsonGetString]
  split <;> exact nofun

theorem tqJsonGetArray_ne_error (h : jo ≠ none) (name : String) :
    tqJsonGetArray jo name ≠ .error e := by
  obtain ⟨j, rfl⟩ := Option.ne_none_iff_exists'.mp h
  exact nofun

end Tqos
