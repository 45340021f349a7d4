import StaticReflection.ClosureSearch
import StaticReflection.CommandLine
import StaticReflection.Composer.ClassMap
import StaticReflection.Composer.Manifest
import StaticReflection.Composer.Psr4
import StaticReflection.Composer.VendorFiles
import StaticReflection.Config
import StaticReflection.Declaration
import StaticReflection.DocComment
import StaticReflection.Error
import StaticReflection.Evaluate
import StaticReflection.Files.Path
import StaticReflection.Files.Tree
import StaticReflection.Formats.Json
import StaticReflection.Formats.Toml
import StaticReflection.Identifier
import StaticReflection.Imports
import StaticReflection.Locator.Basic
import StaticReflection.Locator.Locate
import StaticReflection.Lookup
import StaticReflection.Main
import StaticReflection.Name
import StaticReflection.Number.Digits
import StaticReflection.Number.Double
import StaticReflection.Number.Numeral
import StaticReflection.Project
import StaticReflection.Proofs.ClosurePlaces
import StaticReflection.Proofs.SyntaxPlaces
import StaticReflection.Reflection.Basic
import StaticReflection.Reflection.Build
import StaticReflection.Reflection.Text
import StaticReflection.Reflector
import StaticReflection.Search
import StaticReflection.Source
import StaticReflection.Stub.Availability
import StaticReflection.Stub.MapFile
import StaticReflection.Stub.Stubber
import StaticReflection.Syntax.Grammar.Basic
import StaticReflection.Syntax.Grammar.Class
import StaticReflection.Syntax.Grammar.Expression
import StaticReflection.Syntax.Grammar.Function
import StaticReflection.Syntax.Grammar.Statement
import StaticReflection.Syntax.Keyword
import StaticReflection.Syntax.Lexer
import StaticReflection.Syntax.Program
import StaticReflection.Syntax.Scan
import StaticReflection.Syntax.StringLiteral
import StaticReflection.Syntax.Template
import StaticReflection.Syntax.Token
import StaticReflection.Syntax.Tree
import StaticReflection.Text.Alphanumeric
import StaticReflection.Text.Blank
import StaticReflection.Text.Cut
import StaticReflection.Text.Position
import StaticReflection.Value.Basic
import StaticReflection.Value.Entries
import StaticReflection.Value.Operator
import StaticReflection.Version
import StaticReflection.Proofs.DeclaredNames
import StaticReflection.Proofs.FirstOfListed
import StaticReflection.Proofs.MemoHistory
import StaticReflection.Proofs.AlikeLookups
import StaticReflection.Proofs.Chains
import StaticReflection.Proofs.MemoTransparency
import StaticReflection.Proofs.BuildFaults
import StaticReflection.Proofs.Outcomes
import StaticReflection.Proofs.SoundAnswers
import StaticReflection.Proofs.SearchModes
import StaticReflection.Proofs.Presence
import StaticReflection.Proofs.PartlyKnownArrays
import StaticReflection.Proofs.UnknownConstants
import StaticReflection.Proofs.BareConstants
import StaticReflection.Proofs.RepeatedAnswers
import StaticReflection.Proofs.ReferenceChains
import StaticReflection.Proofs.NestedReferences
import StaticReflection.Proofs.StubPresence
import StaticReflection.Proofs.StubVersions
import StaticReflection.Proofs.DeclarationPlaces
import StaticReflection.Proofs.PrintedArrays
import StaticReflection.Proofs.PrintedMaps
import StaticReflection.Proofs.PathPlaces
import StaticReflection.Proofs.GeneratedFiles
import StaticReflection.Proofs.ClassCandidates
import StaticReflection.Proofs.EvaluatedParts
import StaticReflection.Proofs.SelfReferences
import StaticReflection.Proofs.OwnDefaults
import StaticReflection.Proofs.DescriptionFaults
import StaticReflection.Proofs.PlainValues
import StaticReflection.Proofs.ScannedValues
import StaticReflection.Proofs.ReadValues
import StaticReflection.Proofs.ExportedValues
import StaticReflection.Proofs.RoundedIntegers
import StaticReflection.Proofs.ComparedIntegers
import StaticReflection.Proofs.TwosComplement
import StaticReflection.Proofs.IntegerArithmetic
import StaticReflection.Proofs.LooseEquality
import StaticReflection.Proofs.OrderedMaps
import StaticReflection.Proofs.ArrayLiterals
import StaticReflection.Proofs.ShortCircuits
import StaticReflection.Proofs.NumericStrings
import StaticReflection.Proofs.IntegerLiterals
import StaticReflection.Proofs.LiteralTexts
import StaticReflection.Proofs.NumberedNames
import StaticReflection.Proofs.ComparedNames
import StaticReflection.Proofs.ResolvedNames
import StaticReflection.Proofs.ImportTables
import StaticReflection.Proofs.UnionParts
import StaticReflection.Proofs.ReturnTags
import StaticReflection.Proofs.ReturnTypes
import StaticReflection.Proofs.LinePositions
import StaticReflection.Proofs.AttachedComments
import StaticReflection.Proofs.CanonicalMappings
import StaticReflection.Proofs.NestedQuestions
