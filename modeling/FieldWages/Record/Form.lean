import FieldWages.Clock.Text
import FieldWages.Concept
import FieldWages.Decimal.Text
import FieldWages.Json.Basic
import FieldWages.Record.Reader
import FieldWages.SortedMap

/-!
# Record forms

Each kind of value that is exchanged has a *form*: the JSON value it is written
as, and the reading of such a value. Decimals, dates and times are written as
text; a decimal may also be given as a number. What is optional is written as
null if it is not there.
-/

namespace FieldWages

/-- How the values of a type are written as JSON and read back. -/
class JsonForm (α : Type) where
  toJson : α → Json
  ofJson? : Json → Option α

export JsonForm (toJson ofJson?)

namespace JsonForm

instance : JsonForm Json := ⟨id, some⟩

instance : JsonForm String where
  toJson := .str
  ofJson? | .str s => some s
          | _ => none

instance : JsonForm Bool where
  toJson := .bool
  ofJson? | .bool b => some b
          | _ => none

instance : JsonForm UInt32 where
  toJson n := .int n.toNat
  ofJson? | .int n => if 0 ≤ n ∧ n < 4294967296 then some (.ofNat n.toNat) else none
          | _ => none

instance : JsonForm UInt64 where
  toJson n := .int n.toNat
  ofJson? | .int n => if 0 ≤ n ∧ n < 18446744073709551616 then some (.ofNat n.toNat) else none
          | _ => none

instance : JsonForm Decimal where
  toJson d := .str d.toText
  ofJson? | .str s => Decimal.ofText? s
          | .int n => Decimal.ofInt? n
          | .real x => Decimal.ofPlainText? x.plainChars
          | _ => none

/-- The value of a text. -/
def textOf? {α : Type} (read? : String → Option α) : Json → Option α
  | .str s => read? s
  | _ => none

instance : JsonForm Date := ⟨fun d => .str d.toText, textOf? Date.ofText?⟩

instance : JsonForm TimeOfDay := ⟨fun t => .str t.toText, textOf? TimeOfDay.ofText?⟩

instance : JsonForm DateTime := ⟨fun t => .str t.toText, textOf? DateTime.ofText?⟩

instance : JsonForm Weekday := ⟨fun w => .str w.toText, textOf? Weekday.ofText?⟩

/-- A category is written by its name; an object whose only member has that name
    and is null is read as well. -/
instance : JsonForm Category where
  toJson c := .str c.name
  ofJson? | .str s => Category.ofName? s
          | .obj [(name, .null)] => Category.ofName? name
          | _ => none

instance {α : Type} [JsonForm α] : JsonForm (Option α) where
  toJson | none => .null
         | some a => toJson a
  ofJson? | .null => some none
          | v => (ofJson? v).map some

instance {α : Type} [JsonForm α] : JsonForm (List α) where
  toJson as := .arr (as.map toJson)
  ofJson? | .arr vs => vs.mapM ofJson?
          | _ => none

/-- Values by dates, as an object. -/
instance {α : Type} [JsonForm α] : JsonForm (SortedMap Date α) where
  toJson m := .obj (m.entries.map fun e => (e.1.toText, toJson e.2))
  ofJson? | .obj ms => do
            let es ← ms.mapM fun m => do pure (← Date.ofText? m.1, ← ofJson? m.2)
            pure (.ofList es)
          | _ => none

end JsonForm

/-! ## Records -/

instance {α : Type} [JsonForm α] : ReadFrom Json α := ⟨ofJson?⟩

/-- Reads a record from an object or a list. -/
def Record.ofJson? {α : Type} (r : FieldReader Json α) : Json → Option α
  | .obj ms => read? r (.named fun name => (Json.member? ms name).toList)
  | .arr vs => read? r (.listed vs)
  | _ => none

end FieldWages
