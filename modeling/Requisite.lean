import Requisite.Config.Document
import Requisite.Config.Settings
import Requisite.Digraph.Basic
import Requisite.Digraph.Sort
import Requisite.Distribution.Basic
import Requisite.Distribution.Closure
import Requisite.Distribution.Resolution
import Requisite.Distribution.Source
import Requisite.FileTree
import Requisite.Index.Basic
import Requisite.Index.Spec
import Requisite.Install.Plan
import Requisite.Install.Basic
import Requisite.Install.Linker
import Requisite.Interpreter.Basic
import Requisite.Interpreter.Distributions
import Requisite.Interpreter.Executable
import Requisite.Interpreter.Process
import Requisite.Interpreter.StandIn
import Requisite.Json.Basic
import Requisite.Json.Parser
import Requisite.Marker.Basic
import Requisite.Marker.Evaluation
import Requisite.Marker.Parser
import Requisite.Marker.Token
import Requisite.Name
import Requisite.Path
import Requisite.Proofs.Digraph.Build
import Requisite.Proofs.Digraph.Content
import Requisite.Proofs.Digraph.Indexes
import Requisite.Proofs.Digraph.Order
import Requisite.Proofs.Digraph.Waves
import Requisite.Proofs.Distribution.Cache
import Requisite.Proofs.Distribution.Closure
import Requisite.Proofs.Distribution.Declarations
import Requisite.Proofs.Distribution.Demands
import Requisite.Proofs.Distribution.Extras
import Requisite.Proofs.Distribution.Findings
import Requisite.Proofs.Distribution.Layers
import Requisite.Proofs.Distribution.Resolution
import Requisite.Proofs.Distribution.Source
import Requisite.Proofs.Distribution.Unfolding
import Requisite.Proofs.Distribution.Walks
import Requisite.Proofs.Keys
import Requisite.Proofs.Marker.Extras
import Requisite.Proofs.Marker.Grammar
import Requisite.Proofs.Marker.Lexis
import Requisite.Proofs.Marker.Parsing
import Requisite.Proofs.Marker.Splicing
import Requisite.Proofs.Marker.Writing
import Requisite.Proofs.Name
import Requisite.Proofs.Name.Extras
import Requisite.Proofs.Name.Spellings
import Requisite.Proofs.Index.Spec
import Requisite.Proofs.Index.Calls
import Requisite.Proofs.Install.Courses
import Requisite.Proofs.Install.Effects
import Requisite.Proofs.Outcome
import Requisite.Proofs.Range.Normal
import Requisite.Proofs.Range.Terms
import Requisite.Proofs.Range.Wildcard
import Requisite.Proofs.Range.Written
import Requisite.Proofs.Requirement.Configured
import Requisite.Proofs.Requirement.Forms
import Requisite.Proofs.Requirement.Head
import Requisite.Proofs.Requirement.Options
import Requisite.Proofs.Requirement.Reading
import Requisite.Proofs.Requirement.Target
import Requisite.Proofs.Requirement.Writing
import Requisite.Proofs.Text.Classes
import Requisite.Proofs.Text.Pieces
import Requisite.Proofs.Version.Order
import Requisite.Proofs.Version.Reading
import Requisite.Proofs.Version.Series
import Requisite.Proofs.Version.Spelling
import Requisite.Range.Basic
import Requisite.Range.Clause
import Requisite.Range.Shorthand
import Requisite.Reading
import Requisite.Requirement.Basic
import Requisite.Requirement.Options
import Requisite.Requirement.Parser
import Requisite.Requirement.Selection
import Requisite.Requirement.Table
import Requisite.Text.Basic
import Requisite.Text.Cut
import Requisite.Text.Percent
import Requisite.Text.Shape
import Requisite.Text.Word
import Requisite.Toml.Float
import Requisite.Toml.Parser
import Requisite.Toml.Quotation
import Requisite.Toml.Scalar
import Requisite.Toml.Spelling
import Requisite.Toml.Tree
import Requisite.Toml.Value
import Requisite.Url.Basic
import Requisite.Url.Host
import Requisite.Url.Parser
import Requisite.Version.Basic
import Requisite.Version.Order
import Requisite.Version.Spelling
import Requisite.Proofs.Install.Levels
import Requisite.Proofs.Install.Worklist
import Requisite.Proofs.Interpreter.Session
import Requisite.Proofs.Install.Selection
import Requisite.Proofs.Version.Normal
import Requisite.Proofs.Version.Plain
import Requisite.Proofs.Range.Shorthand
import Requisite.Proofs.Range.Boundary
import Requisite.Proofs.Range.Candidates
import Requisite.Proofs.Version.Labels
import Requisite.Proofs.Version.Numeral
import Requisite.Proofs.Version.Suffix
import Requisite.Proofs.Version.Wording
import Requisite.Proofs.Digraph.Depth
import Requisite.Proofs.Digraph.WaveOrder
import Requisite.Proofs.Distribution.Heights
import Requisite.Proofs.Distribution.Merging
import Requisite.Proofs.Marker.Evaluation
import Requisite.Proofs.Marker.Complement
import Requisite.Proofs.Install.Requests
import Requisite.Proofs.Install.Options
import Requisite.Proofs.Install.Extras
import Requisite.Proofs.Install.Groups
import Requisite.Proofs.Install.Arguments
import Requisite.Proofs.Requirement.Insertion
import Requisite.Proofs.Requirement.Proper
import Requisite.Proofs.Interpreter.Executable
