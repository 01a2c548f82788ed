import ModelSchema.Text.Blank
import ModelSchema.Text.Lowercase
import ModelSchema.Text.Quoted

/-!
# Relations between models

The kinds of relations, their names, and a relation as a model declares it.
-/

namespace ModelSchema

inductive RelationKind where
  | hasMany | hasOne | belongsTo | hasManyThrough | hasAndBelongsToMany | embedsOne | embedsMany
  | referencesMany
  deriving DecidableEq

namespace RelationKind

def all : List RelationKind :=
  [.hasMany, .hasOne, .belongsTo, .hasManyThrough, .hasAndBelongsToMany, .embedsOne, .embedsMany,
   .referencesMany]

def name : RelationKind → String
  | .hasMany => "hasMany"
  | .hasOne => "hasOne"
  | .belongsTo => "belongsTo"
  | .hasManyThrough => "hasManyThrough"
  | .hasAndBelongsToMany => "hasAndBelongsToMany"
  | .embedsOne => "embedsOne"
  | .embedsMany => "embedsMany"
  | .referencesMany => "referencesMany"

/-- The name of a kind in capital letters, with underscores between its words. -/
def constantName : RelationKind → String
  | .hasMany => "HAS_MANY"
  | .hasOne => "HAS_ONE"
  | .belongsTo => "BELONGS_TO"
  | .hasManyThrough => "HAS_MANY_THROUGH"
  | .hasAndBelongsToMany => "HAS_AND_BELONGS_TO_MANY"
  | .embedsOne => "EMBEDS_ONE"
  | .embedsMany => "EMBEDS_MANY"
  | .referencesMany => "REFERENCES_MANY"

/-- Whether the related instances are stored inside the source. -/
def isEmbedded : RelationKind → Bool
  | .embedsOne | .embedsMany => true
  | _ => false

/-- Whether the relation leads to any number of instances. -/
def isMany : RelationKind → Bool
  | .hasOne | .belongsTo | .embedsOne => false
  | _ => true

/-- The kind with exactly the given name. -/
def ofName? (name : String) : Option RelationKind := all.find? fun kind => kind.name == name

theorem ofName?_name (kind : RelationKind) : ofName? kind.name = some kind := by
  cases kind <;> decide

/-- The kind that a declared text stands for, without the blanks around it and without regard to
case. The names are ASCII letters without a `k`, so only the case of ASCII letters matters. -/
def ofDeclared? (text : String) : Option RelationKind :=
  let folded := Text.foldAsciiCase (Text.trim text)
  all.find? fun kind => Text.foldAsciiCase kind.name == folded

/-- The names of all kinds as a message lists them. -/
def allNamesText : String := Text.bracketed "[" (all.map fun kind => Text.quote kind.name) "]"

end RelationKind

/-- A named relation from one model to another. -/
structure Relation where
  name : String
  source : String
  target : Option String
  kind : RelationKind
  embed : Bool := false
  deriving DecidableEq

end ModelSchema
