import StepScript.Json

/-!
# Records in JSON documents

Reading what was written as a record: an object has the fields by their names, in any order and
among others, and an array has all of them by their places.
-/

set_option autoImplicit false

namespace StepScript.Json

/-! ## Single documents -/

/-- A text. -/
def text? : Json → Option String
  | .text s => some s
  | _ => none

/-- A text or null. -/
def textOrNull? : Json → Option (Option String)
  | .text s => some (some s)
  | .null => some none
  | _ => none

/-- A list whose items are read one by one. -/
def list? {α : Type} (read : Json → Option α) : Json → Option (List α)
  | .array items => items.mapM read
  | _ => none

/-- The numbers of 64 bits are below it. -/
def wordLimit : Nat :=
  Nat.pow 2 64

/-- A natural number of at most 64 bits. -/
def word? : Json → Option Nat
  | .int (.ofNat n) => if n < wordLimit then some n else none
  | _ => none

/-! ## Fields -/

/-- The fields of a record. Those that an object does not have are missing. -/
def fields? (names : List String) : Json → Option (List (Option Json))
  | .object members => some (names.map fun name => members.lookup name)
  | .array items => if items.length = names.length then some (items.map some) else none
  | _ => none

/-- The fields of a record of texts. -/
def textFields? (names : List String) (j : Json) : Option (List String) := do
  (← fields? names j).mapM fun field => field.bind text?

/-- A field that may be missing, which counts as null. -/
def optional? (field : Option Json) : Option (Option String) :=
  textOrNull? (field.getD .null)

/-! ## Written lists -/

/-- A list is read back from the documents of its items. -/
theorem list?_array_map {α : Type} (read : Json → Option α) (write : α → Json)
    (as : List α) (h : ∀ a ∈ as, read (write a) = some a) :
    list? read (.array (as.map write)) = some as := by
  induction as with
  | nil => rfl
  | cons a as ih =>
    have hrest := ih fun b hb => h b (List.mem_cons_of_mem a hb)
    simp only [list?] at hrest ⊢
    simp [h a List.mem_cons_self, hrest]

end StepScript.Json
