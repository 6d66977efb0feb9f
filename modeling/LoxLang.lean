import LoxLang.Main
import LoxLang.Session.Unchecked
import LoxLang.Store.DebugText
import LoxLang.Tree.DebugText
import LoxLang.Tree.References
import LoxLang.Proofs.Grammar.Expression
import LoxLang.Proofs.Grammar.Statement
import LoxLang.Proofs.Reading.Conduct
import LoxLang.Proofs.Reading.ExpressionSoundness
import LoxLang.Proofs.Reading.StatementSoundness
import LoxLang.Proofs.Reading.ExpressionCompleteness
import LoxLang.Proofs.Reading.StatementCompleteness
import LoxLang.Proofs.Grammar.NearestIf
import LoxLang.Proofs.Reading.Acceptance
import LoxLang.Proofs.Lexical.Evaluation
import LoxLang.Proofs.Lexical.Session
import LoxLang.Proofs.Comparison.Activities
import LoxLang.Proofs.Binding.Settled
import LoxLang.Proofs.Lexical.World
import LoxLang.Proofs.Lexical.Steps
import LoxLang.Proofs.Lexical.Declarations
import LoxLang.Proofs.Lexical.Refinement
import LoxLang.Proofs.Grammar.Regular
import LoxLang.Proofs.Binding.Checked
import LoxLang.Proofs.Binding.Soundness
import LoxLang.Proofs.Token.Listing
import LoxLang.Proofs.Session.Program
import LoxLang.Proofs.Lexical.Agreement
import LoxLang.Proofs.Session.Safety
import LoxLang.Proofs.Moved.Machine
import LoxLang.Proofs.Moved.Evaluation
import LoxLang.Proofs.Session.Lines
import LoxLang.Proofs.Moved.Session
import LoxLang.Proofs.Session.Joint
import LoxLang.Proofs.Token.Lexemes
import LoxLang.Proofs.Token.Splitting
import LoxLang.Proofs.Machine.CurrentFrame
import LoxLang.Proofs.Machine.Restoration
import LoxLang.Proofs.Session.Rejection
import LoxLang.Proofs.Moved.Deletion
import LoxLang.Proofs.Names.Growth
import LoxLang.Proofs.Store.Links
import LoxLang.Proofs.Store.Lookup
import LoxLang.Proofs.Names.Soundness
import LoxLang.Proofs.Names.Actions
import LoxLang.Proofs.Names.Evaluation
import LoxLang.Proofs.Names.Executions
import LoxLang.Proofs.Names.Session
import LoxLang.Proofs.Machine.Course
import LoxLang.Proofs.Methods.Retention
import LoxLang.Proofs.Methods.Executions
import LoxLang.Proofs.Methods.Session
import LoxLang.Proofs.Methods.Bodies
import LoxLang.Proofs.Methods.Objects
import LoxLang.Proofs.Methods.Super
import LoxLang.Proofs.Objects.Methods
import LoxLang.Proofs.Objects.Classes
import LoxLang.Proofs.Objects.History
import LoxLang.Proofs.Reading.Moves
import LoxLang.Proofs.Tree.Words
import LoxLang.Proofs.Comparison.Itself
import LoxLang.Proofs.Session.Layout
import LoxLang.Proofs.Comparison.Shadows
import LoxLang.Proofs.Renaming.Sight
import LoxLang.Proofs.Renaming.Machine
import LoxLang.Proofs.Renaming.Evaluation
import LoxLang.Proofs.Token.Leading
import LoxLang.Proofs.Token.Replacing
import LoxLang.Proofs.Token.Spacing
import LoxLang.Proofs.Renaming.Source
import LoxLang.Proofs.Renaming.Roles
import LoxLang.Proofs.Renaming.Bindings
import LoxLang.Proofs.Renaming.Findings
import LoxLang.Proofs.Renaming.Program
import LoxLang.Proofs.Renaming.Session
import LoxLang.Proofs.Limits.Session
import LoxLang.Proofs.Binding.Order
import LoxLang.Proofs.Reading.ExpressionWords
import LoxLang.Proofs.Reading.StatementWords
import LoxLang.Proofs.Binding.Reflection
import LoxLang.Proofs.Binding.Walk
import LoxLang.Proofs.Binding.Exactness
import LoxLang.Proofs.Reading.ExpressionAgreement
import LoxLang.Proofs.Reading.StatementAgreement
import LoxLang.Proofs.Reading.Recovery
import LoxLang.Proofs.Reading.Locality
import LoxLang.Proofs.Reading.Charges
import LoxLang.Proofs.Reading.Totality
import LoxLang.Proofs.Loops.Written
import LoxLang.Proofs.Loops.Desugaring
import LoxLang.Proofs.Loops.Session
import LoxLang.Proofs.Returns.Escaping
import LoxLang.Proofs.Returns.Agreement
import LoxLang.Proofs.Returns.Activations
import LoxLang.Proofs.Construction.Values
import LoxLang.Proofs.Construction.Actions
import LoxLang.Proofs.Construction.Evaluation
import LoxLang.Proofs.Construction.Executions
import LoxLang.Proofs.Construction.Session
import LoxLang.Proofs.Store.Walks
import LoxLang.Proofs.Machine.Works
import LoxLang.Proofs.Origins.Values
import LoxLang.Proofs.Origins.Actions
import LoxLang.Proofs.Origins.Executions
import LoxLang.Proofs.Origins.Course
import LoxLang.Proofs.Origins.Deeds
import LoxLang.Proofs.Origins.History
import LoxLang.Proofs.Origins.Chains
import LoxLang.Proofs.Binding.Ownership
import LoxLang.Proofs.Origins.Resolutions
