import StackCode.Function.Basic
import StackCode.Syntax.Decode

/-!
# Compiled functions as JSON

## Design Notes

Spelling is that of syntax trees: records by name or by position, variants by tag.
-/

namespace StackCode

def Location.toJson (l : Location) : Json :=
  .object [("file", .string l.file), ("span", l.span.toJson)]

def LineTable.toJson (t : LineTable) : Json :=
  .object [("entries", .ofList (fun run : LineRun =>
    .object [("line", .ofNat run.line), ("instruction_count", .ofNat run.count)]) t.runs)]

def NameTable.toJson (t : NameTable) : Json :=
  .object [("names", .ofList .string t.names.toList)]

mutual

def Value.toJson : Value → Json
  | .nil => .string "Nil"
  | .int n => tagged "SmallInt" (.ofInt n.toInt)
  | .float x => tagged "Float" (.number (.float x))
  | .string s => tagged "String" (.string s)
  | .symbol s => tagged "Symbol" (.string s)
  | .ivars table => tagged "IvarIndices" table.toJson
  | .function f => tagged "Function" f.toJson

def valuesToJson : List Value → List Json
  | [] => []
  | v :: rest => v.toJson :: valuesToJson rest

def CompiledFunction.toJson : CompiledFunction → Json
  | ⟨name, code, location, lines, constants, required, optional, upvalues⟩ =>
    .object [
      ("name", .string name),
      ("instructions", .ofList (fun b : UInt8 => .ofNat b.toNat) code.toList),
      ("location", location.toJson),
      ("line_table", lines.toJson),
      ("constants", .array (valuesToJson constants)),
      ("required_params", .ofNat required),
      ("optional_params", .ofNat optional),
      ("upvalue_count", .ofNat upvalues)]

end

def Location.ofJson? : Nat → Json → Option Location
  | 0, _ => none
  | d + 1, j => do
    let [file, span] ← Json.record? ["file", "span"] 0 j | none
    return {
      file := ← Json.required? Json.text? file
      span := ← Json.required? (Span.ofJson? d) span }

def LineRun.ofJson? : Nat → Json → Option LineRun
  | 0, _ => none
  | _ + 1, j => do
    let [line, count] ← Json.record? ["line", "instruction_count"] 0 j | none
    return {
      line := ← Json.required? Json.nat? line
      count := ← Json.required? Json.nat? count }

def LineTable.ofJson? : Nat → Json → Option LineTable
  | 0, _ => none
  | d + 1, j => do
    let [entries] ← Json.record? ["entries"] 0 j | none
    return ⟨← Json.required? (Json.items? LineRun.ofJson? d) entries⟩

/-- The table of names that a record spells; a name that is repeated counts once. -/
def NameTable.ofJson? : Nat → Json → Option NameTable
  | 0, _ => none
  | d + 1, j => do
    let [names] ← Json.record? ["names"] 0 j | none
    return .ofList (← Json.required? (Json.items? (fun _ => Json.text?) d) names)

mutual

def Value.decode? : Nat → Json → Option Value
  | _, .string "Nil" => some .nil
  | d + 1, .object [(tag, content)] =>
    match tag with
    | "Nil" => if content matches .null then some .nil else none
    | "SmallInt" => content.int64?.map .int
    | "Float" => content.double?.map .float
    | "String" => content.text?.map .string
    | "Symbol" => content.text?.map .symbol
    | "IvarIndices" => (NameTable.ofJson? d content).map .ivars
    | "Function" => (CompiledFunction.decode? d content).map .function
    | _ => none
  | _, _ => none

def Value.listOfJson? : Nat → Json → Option (List Value)
  | 0, _ => none
  | d + 1, j => j.list? (Value.decode? d)

def CompiledFunction.decode? : Nat → Json → Option CompiledFunction
  | 0, _ => none
  | d + 1, j => do
    let [name, code, location, lines, constants, required, optional, upvalues] ←
      Json.record? ["name", "instructions", "location", "line_table", "constants",
        "required_params", "optional_params", "upvalue_count"] 0 j | none
    return {
      name := ← Json.required? Json.text? name
      code := (← Json.required? (Json.items? (fun _ => Json.byte?) d) code).toArray
      location := ← Json.required? (Location.ofJson? d) location
      lines := ← Json.required? (LineTable.ofJson? d) lines
      constants := ← Json.required? (Value.listOfJson? d) constants
      required := ← Json.required? Json.nat? required
      optional := ← Json.required? Json.nat? optional
      upvalues := ← Json.required? Json.nat? upvalues }

end

def Value.ofJson? (j : Json) : Option Value := Value.decode? j.depth j

def CompiledFunction.ofJson? (j : Json) : Option CompiledFunction :=
  CompiledFunction.decode? j.depth j

end StackCode
