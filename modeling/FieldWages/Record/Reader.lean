/-!
# Reading records

A record is written with names for its fields, or as the plain list of its
fields in their order. A reader takes one field after the other. A field must
be there (`Record.field`); or it may be missing from the names but not from the
list (`Record.field?`); or it may be missing from both, as it has a default
(`Record.fieldOr`). A name must not be given twice. Names that no field has are
passed over, but a list must not be longer than the record.

The fields are read from values of any format that has such records: a format
`ν` says by instances of `ReadFrom ν` which types it has values of.
-/

namespace FieldWages

/-- The reading of values of a type from a format. -/
class ReadFrom (ν α : Type) where
  read? : ν → Option α

/-- What a record is read from. -/
inductive Fields (ν : Type) where
  /-- The values given under each name. -/
  | named (valuesOf : String → List ν)
  /-- The values that are left. -/
  | listed (values : List ν)

/-- A reader of some fields of a record, which gives the fields left over. -/
abbrev FieldReader (ν α : Type) := StateT (Fields ν) Option α

namespace Record

variable {ν α : Type}

/-- A field that must be there. -/
def field [ReadFrom ν α] (name : String) : FieldReader ν α
  | .named valuesOf =>
    match valuesOf name with
    | [v] => (ReadFrom.read? v).map (·, .named valuesOf)
    | _ => none
  | .listed [] => none
  | .listed (v :: vs) => (ReadFrom.read? v).map (·, .listed vs)

/-- A field that is `a` if it is not there. -/
def fieldOr [ReadFrom ν α] (name : String) (a : α) : FieldReader ν α
  | .named valuesOf => if (valuesOf name).isEmpty then some (a, .named valuesOf)
    else field name (.named valuesOf)
  | .listed vs => if vs.isEmpty then some (a, .listed vs) else field name (.listed vs)

/-- A field that is `none` if it is not among the names. -/
def field? [ReadFrom ν (Option α)] (name : String) : FieldReader ν (Option α)
  | .named valuesOf => fieldOr name none (.named valuesOf)
  | .listed vs => field name (.listed vs)

/-- Reads a record; a list must be used up. -/
def read? (r : FieldReader ν α) (fields : Fields ν) : Option α := do
  let (a, rest) ← r fields
  match rest with
  | .listed (_ :: _) => none
  | _ => some a

end Record

end FieldWages
