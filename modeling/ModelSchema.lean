import ModelSchema.Scalar.Classes
import ModelSchema.Scalar.Date
import ModelSchema.Scalar.Json
import ModelSchema.Schema.Generator
import ModelSchema.Schema.Resolution
import ModelSchema.Proofs.Schema.Sameness
import ModelSchema.Proofs.Execution
import ModelSchema.Proofs.Schema.Registration
import ModelSchema.Proofs.Schema.Compilation
import ModelSchema.Proofs.Schema.Drafts
import ModelSchema.Proofs.Schema.Build
import ModelSchema.Proofs.Schema.References
import ModelSchema.Proofs.Schema.Provenance
import ModelSchema.Proofs.Schema.Retries
import ModelSchema.Proofs.Json.CanonicalOrder
import ModelSchema.Proofs.Schema.Exports
import ModelSchema.Proofs.Schema.PlainModels
import ModelSchema.Proofs.Schema.Permutation
import ModelSchema.Proofs.Schema.OrderIndependence
import ModelSchema.Proofs.Schema.Consistency
import ModelSchema.Proofs.Schema.Listings
import ModelSchema.Proofs.Schema.Freezing
import ModelSchema.Proofs.Json.Atoms
import ModelSchema.Proofs.Json.Strings
import ModelSchema.Proofs.Json.Spelling
import ModelSchema.Proofs.Json.Alike
import ModelSchema.Proofs.Value.Contents
import ModelSchema.Proofs.Json.Normal
import ModelSchema.Proofs.Number.Literals
import ModelSchema.Proofs.Scalar.JsonText
import ModelSchema.Proofs.Scalar.Variables
import ModelSchema.Proofs.Calendar.IsoText
import ModelSchema.Proofs.Schema.Fingerprints
import ModelSchema.Proofs.Schema.Clashes
import ModelSchema.Proofs.Schema.DerivedNames
import ModelSchema.Proofs.Schema.Interleavings
import ModelSchema.Proofs.Schema.Restatements
import ModelSchema.Proofs.Schema.EmbedDepth
import ModelSchema.Proofs.Declaration.RewordedModels
import ModelSchema.Proofs.Schema.Knots
import ModelSchema.Proofs.Schema.ChildrenFirst
import ModelSchema.Proofs.Schema.FieldShapes
import ModelSchema.Proofs.Schema.Warnings
import ModelSchema.Proofs.Schema.EmbeddedObjects
import ModelSchema.Proofs.Schema.ModelFields
import ModelSchema.Proofs.Schema.HiddenFields
import ModelSchema.Proofs.Schema.Unions
import ModelSchema.Proofs.Schema.KnownModels
import ModelSchema.Proofs.Schema.ScalarNames
import ModelSchema.Proofs.Schema.Unlimited
import ModelSchema.Proofs.Schema.Deprecations
import ModelSchema.Proofs.Paging.Walks
import ModelSchema.Proofs.Schema.Enumerations
import ModelSchema.Proofs.Schema.Descriptions
