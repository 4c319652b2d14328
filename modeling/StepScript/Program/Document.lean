import StepScript.Program.Basic
import StepScript.Statement.Document

/-!
# Programs in JSON documents

Reading a program from its document, which `Program.toJson` writes. A program and the places of its
statements are records; a line or step has at most 64 bits.
-/

set_option autoImplicit false

namespace StepScript

/-- The kind of header that a document names, by itself or as the only member, over null. -/
def HeaderKind.ofJson? : Json → Option HeaderKind
  | .text name => all.find? fun k => k.name = name
  | .object [(name, .null)] => all.find? fun k => k.name = name
  | _ => none

/-- The location in a JSON document. -/
def Location.ofJson? (j : Json) : Option Location := do
  match ← Json.fields? ["line", "step"] j with
  | [some line, some step] => return ⟨← line.word?, ← step.word?⟩
  | _ => none

namespace Program

/-- The program of a JSON document. -/
def ofJson? (j : Json) : Option Program := do
  match ← Json.fields? ["name", "kind", "inputs", "output", "body", "locations"] j with
  | [some name, some kind, some inputs, output, some body, some locations] =>
    return {
      name := ← name.text?
      kind := ← HeaderKind.ofJson? kind
      inputs := ← Json.list? Json.text? inputs
      output := ← Json.optional? output
      body := ← Json.list? Statement.ofJson? body
      locations := ← Json.list? Location.ofJson? locations }
  | _ => none

end Program

/-! ## Reading back -/

/-- A kind of header is read back from its name. -/
theorem HeaderKind.ofJson?_name (k : HeaderKind) : ofJson? (.text k.name) = some k := by
  cases k <;> rfl

/-- A number of at most 64 bits is read back. -/
theorem Json.word?_ofNat {n : Nat} (h : n < Json.wordLimit) : Json.word? (.int n) = some n :=
  if_pos h

/-- A location within 64 bits is read back. -/
theorem Location.ofJson?_toJson {l : Location} (hline : l.line < Json.wordLimit)
    (hstep : l.step < Json.wordLimit) : ofJson? l.toJson = some l := by
  simp [ofJson?, toJson, Json.fields?, List.lookup_cons, Json.word?_ofNat hline,
    Json.word?_ofNat hstep]

/-- A program whose places are within 64 bits is read back from its document. -/
theorem Program.ofJson?_toJson {p : Program}
    (h : ∀ l ∈ p.locations, l.line < Json.wordLimit ∧ l.step < Json.wordLimit) :
    ofJson? p.toJson = some p := by
  have hinputs : Json.list? Json.text? (Statement.textArray p.inputs) = some p.inputs :=
    Json.list?_array_map _ _ _ fun _ _ => rfl
  have hbody : Json.list? Statement.ofJson? (.array (p.body.map Statement.toJson)) = some p.body :=
    Json.list?_array_map _ _ _ fun s _ => Statement.ofJson?_toJson s
  have hlocations :
      Json.list? Location.ofJson? (.array (p.locations.map Location.toJson)) = some p.locations :=
    Json.list?_array_map _ _ _ fun l hl => Location.ofJson?_toJson (h l hl).1 (h l hl).2
  simp [ofJson?, toJson, Json.fields?, List.lookup_cons, Json.text?, HeaderKind.ofJson?_name,
    Statement.optional?_ofText?, hinputs, hbody, hlocations]

end StepScript
