import ModelSchema.Declaration.Model
import ModelSchema.Schema.RelationField

/-!
# The root type

The type at the root of a schema lists the instances of each shared model under the plural name of
the model, with a small first letter.
-/

namespace ModelSchema

/-- The name under which the root type lists a model. -/
def Model.listingName (m : Model) : String := Text.lowerFirst m.pluralName

/-- The field that lists the instances of a model. -/
def Field.ofListing (m : Model) : Field :=
  { name := .text m.listingName
    typeName := some m.name
    isList := true
    isRelation := true
    isConnection := true
    arguments := pageArguments }

/-- The fields of the root type. A later model takes the place of one with the same listing name. -/
def listings (models : List Model) : List (Value × Field) :=
  Table.ofRows ((models.filter Model.shared).map fun m => (.text m.listingName, Field.ofListing m))

/-- The root type for a list of models. -/
def rootType (models : List Model) (settings : Settings) : TypeDescriptor :=
  { name := settings.rootTypeName
    category := .object
    description := settings.rootTypeDescription
    fields := listings models }

end ModelSchema
