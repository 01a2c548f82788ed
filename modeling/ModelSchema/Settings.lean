import ModelSchema.Declaration.DeclaredType

/-!
# Compiler settings

What a compilation can be told. Settings are free-form values, since they come from configuration
blocks; each is looked at where it is needed. A configuration block takes precedence over the
defaults, and what a caller says over both.
-/

namespace ModelSchema

structure Settings where
  rootTypeName : Value := .text "Viewer"
  rootTypeDescription : Value := .text "Viewer"
  /-- The depth from which anonymous structures nest too deep. -/
  maxEmbedDepth : Value := .int 8
  /-- The name of the argument by which relations are filtered; none if it counts as false. -/
  relationFilterArgument : Value := .text "active"
  /-- The path of the lookup that finds related instances; none if it counts as false. -/
  relationLookup : Value := .null
  warnUnresolvedTypes : Value := .bool true

namespace Settings

/-- Changes the setting with the given name, if there is one. -/
def put (s : Settings) (name : String) (v : Value) : Settings :=
  match name with
  | "root_type_name" => { s with rootTypeName := v }
  | "root_type_description" => { s with rootTypeDescription := v }
  | "max_embed_depth" => { s with maxEmbedDepth := v }
  | "relation_filter_argument" => { s with relationFilterArgument := v }
  | "relation_lookup" => { s with relationLookup := v }
  | "warn_unresolved_types" => { s with warnUnresolvedTypes := v }
  | _ => s

/-- The settings by name. -/
def toRows (s : Settings) : List (String × Value) :=
  [("root_type_name", s.rootTypeName), ("root_type_description", s.rootTypeDescription),
   ("max_embed_depth", s.maxEmbedDepth), ("relation_filter_argument", s.relationFilterArgument),
   ("relation_lookup", s.relationLookup), ("warn_unresolved_types", s.warnUnresolvedTypes)]

/-- The defaults with the given settings put in, in order. Rows that name no setting are passed
over. -/
def ofRows (rows : List (Value × Value)) : Settings :=
  rows.foldl (fun s row => match row.1 with | .text name => s.put name row.2 | _ => s) {}

/-- The part of a configuration block that holds compiler settings. A block that is no mapping has
none. -/
def section? (block : Value) : Option Value :=
  block.entries?.bind (Table.find? (.text "compiler_settings"))

/-- The settings of a configuration block with the given settings put in. -/
def resolve (block : Value) (overrides : List (Value × Value)) : Except Failure Settings :=
  ((section? block).getD .null).optionalRows.map fun rows => ofRows (rows ++ overrides)

end Settings

/-- Where the settings of a compilation come from: from the caller, or from a configuration
block. -/
inductive SettingsSource where
  | given (settings : Settings)
  | configured (block : Value)

def SettingsSource.load : SettingsSource → Except Failure Settings
  | .given settings => .ok settings
  | .configured block => Settings.resolve block []

namespace Value

/-- The least whole number that is not below a number, unless the number is vast. -/
def ceiling? : Value → Option Int
  | .bool b => some (if b then 1 else 0)
  | .int n => some n
  | .float x => x.ceiling?
  | .decimal d => if d.isVast then none else d.ceiling?
  | _ => none

end Value

namespace Settings

/-- Whether no depth reaches the limit. -/
def isUnlimited (s : Settings) : Bool :=
  match s.maxEmbedDepth with
  | .float (.infinite negative) => !negative
  | .float (.undefined _) => true
  | .decimal d => d.isVast && !d.isNegative
  | _ => false

/-- How many levels of anonymous structures may still open at a depth. Without a limit as many
levels may open as the declaration has, `nesting`. -/
def levelsLeft (s : Settings) (depth : Int) (nesting : Nat) : Nat :=
  if s.isUnlimited then nesting
  else match s.maxEmbedDepth.ceiling? with
    | some limit => (limit - depth).toNat
    | none => 0

/-- Why a depth cannot be compared with the limit, if it cannot. -/
def limitFailure? (s : Settings) : Option Failure :=
  match s.maxEmbedDepth with
  | .decimal (.undefined ..) => some .undefinedComparison
  | .bool _ | .int _ | .float _ | .decimal _ => none
  | _ => some .typeMismatch

end Settings

end ModelSchema
