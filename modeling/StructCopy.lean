import StructCopy.Aliases
import StructCopy.CommandLine.Arguments
import StructCopy.CommandLine.Run
import StructCopy.CommandLine.Variables
import StructCopy.Config.Check
import StructCopy.Config.Document
import StructCopy.Fields.Basic
import StructCopy.Fields.Expansion
import StructCopy.Fields.Explore
import StructCopy.Fields.Store
import StructCopy.Files.Disk
import StructCopy.Files.Location
import StructCopy.Files.Path
import StructCopy.Files.Source
import StructCopy.Files.Store
import StructCopy.Generator
import StructCopy.Go.Constraint
import StructCopy.Go.Header
import StructCopy.Go.Layout
import StructCopy.Go.Piece
import StructCopy.Go.Platform
import StructCopy.Go.Reader
import StructCopy.Go.Reading
import StructCopy.Go.SourceFile
import StructCopy.Go.SyntaxError
import StructCopy.Go.Tag
import StructCopy.Go.Token
import StructCopy.Go.TypeExpr
import StructCopy.Go.TypeExpr.Printer
import StructCopy.Go.TypeExpr.Qualifiers
import StructCopy.Json
import StructCopy.Main
import StructCopy.Mapping.Basic
import StructCopy.Mapping.Conversion
import StructCopy.Mapping.Function
import StructCopy.Mapping.Match
import StructCopy.Module.Cache
import StructCopy.Module.Directory
import StructCopy.Module.ImportPath
import StructCopy.Module.Loading
import StructCopy.Module.ModFile
import StructCopy.Module.Package
import StructCopy.Template
import StructCopy.Template.Placeholder
import StructCopy.Template.TypeTemplate
import StructCopy.Text.Blank
import StructCopy.Text.CodePoints
import StructCopy.Text.Letter
import StructCopy.Text.Quoted
import StructCopy.Text.Split
import StructCopy.Yaml.Block
import StructCopy.Yaml.Cursor
import StructCopy.Yaml.Directive
import StructCopy.Yaml.Document
import StructCopy.Yaml.Node
import StructCopy.Yaml.Plain
import StructCopy.Yaml.Quoted
import StructCopy.Yaml.Reader
import StructCopy.Yaml.Shape
import StructCopy.Yaml.Tag
import StructCopy.Yaml.Token
import StructCopy.Yaml.Token.Lexer
import StructCopy.Proofs.Text.Marks
import StructCopy.Proofs.Fields.Steady
import StructCopy.Proofs.Fields.Expands
import StructCopy.Proofs.Fields.Exactness
import StructCopy.Proofs.Aliases.Growth
import StructCopy.Proofs.Fields.Discovery
import StructCopy.Proofs.Config.Acceptance
import StructCopy.Proofs.Generator.Repetition
import StructCopy.Proofs.Generator.Confusion
import StructCopy.Proofs.Go.Grammar
import StructCopy.Proofs.Go.LengthText
import StructCopy.Proofs.Go.Lexing
import StructCopy.Proofs.Go.WellFormed
import StructCopy.Proofs.Go.Spelling
import StructCopy.Proofs.Go.Declaration
import StructCopy.Proofs.Go.RoundTrip
import StructCopy.Proofs.Go.Containment
import StructCopy.Proofs.Go.Relocation
import StructCopy.Proofs.Go.Positions
import StructCopy.Proofs.Generator.Variables
import StructCopy.Proofs.Go.Cutting
import StructCopy.Proofs.Aliases.Pruning
import StructCopy.Proofs.Fields.Trace
import StructCopy.Proofs.Generator.Numbering
import StructCopy.Proofs.Generator.Registration
import StructCopy.Proofs.Generator.History
import StructCopy.Proofs.Mapping.Assembly
import StructCopy.Proofs.Aliases.Renaming
import StructCopy.Proofs.Mapping.Renumbering
import StructCopy.Proofs.Go.Plain
import StructCopy.Proofs.Go.Skipping
import StructCopy.Proofs.Go.Names
import StructCopy.Proofs.Go.FunctionFile
import StructCopy.Proofs.Fields.Naming
import StructCopy.Proofs.Mapping.FunctionText
import StructCopy.Proofs.Aliases.Paths
import StructCopy.Proofs.Config.NamedType
import StructCopy.Proofs.Generator.FileText
import StructCopy.Proofs.Generator.SingleType
import StructCopy.Proofs.Generator.ReadBack
import StructCopy.Proofs.Go.Joining
import StructCopy.Proofs.Go.LineNumbers
import StructCopy.Proofs.Go.Gaps
import StructCopy.Proofs.Files.Order
import StructCopy.Proofs.Go.FileGrammar
import StructCopy.Proofs.Go.Relabeling
import StructCopy.Proofs.Go.Resumption
import StructCopy.Proofs.Go.Insertion
import StructCopy.Proofs.Fields.ImportNames
import StructCopy.Proofs.Go.TypeParts
import StructCopy.Proofs.Template.Placeholder
import StructCopy.Proofs.Template.TypeText
import StructCopy.Proofs.Fields.Meeting
import StructCopy.Proofs.Fields.Faults
import StructCopy.Proofs.Go.Requalifying
import StructCopy.Proofs.Fields.Requalifying
import StructCopy.Proofs.Template.Writing
import StructCopy.Proofs.Mapping.Sources
import StructCopy.Proofs.Go.TagBytes
import StructCopy.Proofs.Go.TagWriting
import StructCopy.Proofs.Go.ConstraintGrammar
import StructCopy.Proofs.Go.BuildLine
import StructCopy.Proofs.Go.StatementEnds
import StructCopy.Proofs.Module.Selection
import StructCopy.Proofs.Go.HeaderEnd
import StructCopy.Proofs.Go.PlusBuild
import StructCopy.Proofs.Module.Dependency
import StructCopy.Proofs.Generator.MappedType
import StructCopy.Proofs.Mapping.Indentation
import StructCopy.Proofs.Module.Directives
import StructCopy.Proofs.Module.Asking
import StructCopy.Proofs.Files.Contents
import StructCopy.Proofs.Files.Walking
import StructCopy.Proofs.Go.Nesting
import StructCopy.Proofs.Go.Progress
import StructCopy.Proofs.Module.CacheNames
