import ScriptTyping.Conversion.Fields
import ScriptTyping.Main
import ScriptTyping.Proofs.Parse.Lossless
import ScriptTyping.Proofs.Parse.Numbering
import ScriptTyping.Proofs.Rule.Budget
import ScriptTyping.Proofs.Rule.Completeness
import ScriptTyping.Proofs.Rule.Conservation
import ScriptTyping.Proofs.Rule.Idempotence
import ScriptTyping.Proofs.Rule.Shape
import ScriptTyping.Proofs.Walk.Safety
import ScriptTyping.Proofs.Rule.Totality
import ScriptTyping.Proofs.Walk.Calls
import ScriptTyping.Proofs.Rule.Pass
import ScriptTyping.Proofs.Rule.SyntheticNames
import ScriptTyping.Proofs.Rule.Detection
import ScriptTyping.Proofs.Rule.InTurn
import ScriptTyping.Proofs.FileSystem.Entries
import ScriptTyping.Proofs.FileSystem.Paths
import ScriptTyping.Proofs.FileSystem.Changes
import ScriptTyping.Proofs.FileSystem.Site
import ScriptTyping.Proofs.Discovery.Search
import ScriptTyping.Proofs.Discovery.Listing
import ScriptTyping.Proofs.Batch.Jobs
import ScriptTyping.Proofs.Batch.Schedule
import ScriptTyping.Proofs.Batch.Delivery
import ScriptTyping.Proofs.Settings.Load
import ScriptTyping.Proofs.Batch.Runs
import ScriptTyping.Proofs.Batch.Containment
import ScriptTyping.Proofs.Batch.Outputs
import ScriptTyping.Proofs.Batch.Isolation
import ScriptTyping.Proofs.Rule.Insertions
import ScriptTyping.Proofs.Rule.Accounting
import ScriptTyping.Proofs.Trace.Discipline
import ScriptTyping.Proofs.Rule.Notes
import ScriptTyping.Proofs.Trace.Phases
import ScriptTyping.Proofs.Store.Edits
import ScriptTyping.Proofs.Rule.Lowering
import ScriptTyping.Proofs.Rule.Elements
import ScriptTyping.Proofs.Rule.Exactness
import ScriptTyping.Proofs.Rule.DefaultScope
import ScriptTyping.Proofs.Rule.NameSequence
import ScriptTyping.Proofs.Parse.Damage
import ScriptTyping.Parse.Assembly
import ScriptTyping.Proofs.Store.Layout
import ScriptTyping.Proofs.Parse.Assembly
import ScriptTyping.Proofs.Parse.Copy
import ScriptTyping.Proofs.Settings.Validation
import ScriptTyping.Proofs.Discovery.Order
import ScriptTyping.Proofs.Rule.Specifiers
import ScriptTyping.Proofs.Rule.Repetition
import ScriptTyping.Proofs.Store.Acyclic
import ScriptTyping.Proofs.Store.Printing
import ScriptTyping.Proofs.Store.Trivia
import ScriptTyping.Proofs.Batch.Copies
import ScriptTyping.Proofs.Store.Rewriting
