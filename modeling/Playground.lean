import Playground.Bundle.Failure
import Playground.Bundle.Modules
import Playground.Bundle.Output
import Playground.Clockwork
import Playground.CommandLine.Arguments
import Playground.CommandLine.Command
import Playground.CommandLine.Execution
import Playground.Compile.Failure
import Playground.Compile.Options
import Playground.Compile.Process
import Playground.Compile.Result
import Playground.Debouncer
import Playground.Debouncer.Timeline
import Playground.Editor
import Playground.Json
import Playground.Json.Lenient
import Playground.Json.Parser
import Playground.Json.Printer
import Playground.Json.Shown
import Playground.Link.Chunk
import Playground.Link.Exports
import Playground.Link.Externals
import Playground.Link.Graph
import Playground.Link.Module
import Playground.Link.Order
import Playground.Log
import Playground.Main
import Playground.Number.Binary64
import Playground.Ordered
import Playground.Pipeline.Action
import Playground.Pipeline.Actions
import Playground.Pipeline.Basic
import Playground.Pipeline.Configured
import Playground.Pipeline.Input
import Playground.Pipeline.Runs
import Playground.Pipeline.State
import Playground.Pipeline.Waiting
import Playground.Proofs.Bundle.Lookup
import Playground.Proofs.Clockwork
import Playground.Proofs.Compile.Answers
import Playground.Proofs.Compile.Containment
import Playground.Proofs.Compile.Payload
import Playground.Proofs.Debouncer.Course
import Playground.Proofs.Debouncer.Emissions
import Playground.Proofs.Debouncer.Waiting
import Playground.Proofs.Json.Acceptance
import Playground.Proofs.Json.Grammar
import Playground.Proofs.Json.Offences
import Playground.Proofs.Json.RoundTrip
import Playground.Proofs.Json.Scalars
import Playground.Proofs.Json.Strings
import Playground.Proofs.Link.BreadthFirst
import Playground.Proofs.Link.Circles
import Playground.Proofs.Link.Declared
import Playground.Proofs.Link.DynamicImports
import Playground.Proofs.Link.Exports
import Playground.Proofs.Link.FileNames
import Playground.Proofs.Link.Gathering
import Playground.Proofs.Link.Hoisting
import Playground.Proofs.Link.Inlining
import Playground.Proofs.Link.Interface
import Playground.Proofs.Link.Lines
import Playground.Proofs.Link.Listings
import Playground.Proofs.Link.Loading
import Playground.Proofs.Link.MadeUp
import Playground.Proofs.Link.Meanings
import Playground.Proofs.Link.Order
import Playground.Proofs.Link.Precedence
import Playground.Proofs.Link.Reading
import Playground.Proofs.Link.Rebindings
import Playground.Proofs.Link.Remains
import Playground.Proofs.Link.Rendering
import Playground.Proofs.Link.Reworking
import Playground.Proofs.Link.Search
import Playground.Proofs.Link.Splitting
import Playground.Proofs.Link.Stretches
import Playground.Proofs.Link.Texts
import Playground.Proofs.Link.Validity
import Playground.Proofs.Link.Warnings
import Playground.Proofs.Link.Weaving
import Playground.Proofs.Pipeline.Advance
import Playground.Proofs.Pipeline.Announcement
import Playground.Proofs.Pipeline.Attendance
import Playground.Proofs.Pipeline.Blind
import Playground.Proofs.Pipeline.Calls
import Playground.Proofs.Pipeline.Chunks
import Playground.Proofs.Pipeline.Convergence
import Playground.Proofs.Pipeline.Core
import Playground.Proofs.Pipeline.Course
import Playground.Proofs.Pipeline.Halting
import Playground.Proofs.Pipeline.Idleness
import Playground.Proofs.Pipeline.Independence
import Playground.Proofs.Pipeline.Line
import Playground.Proofs.Pipeline.Lingering
import Playground.Proofs.Pipeline.Minting
import Playground.Proofs.Pipeline.Operations
import Playground.Proofs.Pipeline.Outlook
import Playground.Proofs.Pipeline.Outside
import Playground.Proofs.Pipeline.Persistence
import Playground.Proofs.Pipeline.Phase
import Playground.Proofs.Pipeline.Provenance
import Playground.Proofs.Pipeline.Publication
import Playground.Proofs.Pipeline.Requests
import Playground.Proofs.Pipeline.Restart
import Playground.Proofs.Pipeline.Sound
import Playground.Proofs.Pipeline.Timing
import Playground.Proofs.Pipeline.Turn
import Playground.Proofs.Pipeline.View
import Playground.Proofs.Server.Coherence
import Playground.Proofs.Server.Visits
import Playground.Proofs.Session.Decoding
import Playground.Proofs.Session.Mangling
import Playground.Proofs.Session.ShareLink
import Playground.Proofs.Source.Clauses
import Playground.Proofs.Source.Complete
import Playground.Proofs.Source.Keywords
import Playground.Proofs.Source.Layout
import Playground.Proofs.Source.Lexemes
import Playground.Proofs.Source.Literals
import Playground.Proofs.Source.Names
import Playground.Proofs.Source.Passage
import Playground.Proofs.Source.Phrases
import Playground.Proofs.Source.Quoted
import Playground.Proofs.Source.Rules
import Playground.Proofs.Source.Statements
import Playground.Proofs.Source.Written
import Playground.Proofs.Text.Base64
import Playground.Proofs.Text.Bits
import Playground.Proofs.Text.Characters
import Playground.Proofs.Text.Octets
import Playground.Proofs.Text.Percent
import Playground.Proofs.Text.Utf8
import Playground.Server.Payload
import Playground.Server.Request
import Playground.Server.Session
import Playground.Session
import Playground.Session.Fragment
import Playground.Settings
import Playground.Source.Declarations
import Playground.Source.Expressions
import Playground.Source.Grammar
import Playground.Source.Lexeme
import Playground.Source.Members
import Playground.Source.Module
import Playground.Source.Names
import Playground.Source.Outline
import Playground.Source.Reader
import Playground.Source.Semicolon
import Playground.Source.Statements
import Playground.Source.Types
import Playground.Text
import Playground.Text.Base64
import Playground.Text.Blank
import Playground.Text.DecimalDigit
import Playground.Text.Encoding
import Playground.Text.Integer
import Playground.Text.Newline
import Playground.Text.Path
import Playground.Text.Percent
import Playground.Text.Printable
import Playground.Text.Quoted
import Playground.Text.ShellWords
import Playground.Text.Upper
import Playground.Text.Utf8
import Playground.Text.Utf8.Message
