import ByteMachine.FileTree
import ByteMachine.Main
import ByteMachine.Effect
import ByteMachine.Machine.Fetch
import ByteMachine.Proofs.InstructionTable
import ByteMachine.Proofs.History
import ByteMachine.Proofs.Termination
import ByteMachine.Proofs.Atomicity
import ByteMachine.Proofs.ListedRun
import ByteMachine.Proofs.Bounds
import ByteMachine.Proofs.LimitedOutput
import ByteMachine.Proofs.ReadSet
import ByteMachine.Proofs.Lines
import ByteMachine.Proofs.Grammar
import ByteMachine.Proofs.Stopping
import ByteMachine.Proofs.Columns
import ByteMachine.Proofs.StackRoom
import ByteMachine.Proofs.TracedRun
import ByteMachine.Proofs.Calculation
import ByteMachine.Proofs.StackDiscipline
import ByteMachine.Proofs.ItemTexts
import ByteMachine.Proofs.Tracing
import ByteMachine.Proofs.Reports
import ByteMachine.Proofs.RunLog
import ByteMachine.Proofs.ReadBack
import ByteMachine.Proofs.ImageInMemory
import ByteMachine.Proofs.JoinedTexts
import ByteMachine.Proofs.Capacity
import ByteMachine.Proofs.LastWriter
import ByteMachine.Proofs.TraceFields
import ByteMachine.Proofs.FullOutput
import ByteMachine.Proofs.Messages
import ByteMachine.Proofs.Registrations
