import ScalarSsa.Main
import ScalarSsa.Program.Encoding
import ScalarSsa.Proofs.Machine.Safety
import ScalarSsa.Proofs.Pass.Preservation
import ScalarSsa.Proofs.Session.Programs
import ScalarSsa.Proofs.Machine.Refinement
import ScalarSsa.Proofs.Pass.RewrittenRuns
import ScalarSsa.Proofs.Lowering.WellFormedBodies
import ScalarSsa.Proofs.Pass.Shape
import ScalarSsa.Proofs.Lowering.Attempts
import ScalarSsa.Proofs.Lowering.Histories
import ScalarSsa.Proofs.Lowering.Atomicity
import ScalarSsa.Proofs.Session.Expressions
import ScalarSsa.Proofs.Lowering.Validity
import ScalarSsa.Proofs.Lowering.Diagnoses
import ScalarSsa.Proofs.Pass.Replacements
import ScalarSsa.Proofs.Pass.ControlRuns
import ScalarSsa.Proofs.Number.Zeros
import ScalarSsa.Proofs.Pass.Unobservable
import ScalarSsa.Proofs.Lowering.Counterparts
import ScalarSsa.Proofs.Session.Optimisation
import ScalarSsa.Proofs.Verify.Acceptance
import ScalarSsa.Proofs.Session.Permanence
import ScalarSsa.Proofs.Session.Reporting
import ScalarSsa.Proofs.Lowering.Renumbering
import ScalarSsa.Proofs.Machine.Renaming
import ScalarSsa.Proofs.Session.Invisibility
import ScalarSsa.Proofs.Pass.Meaning
import ScalarSsa.Proofs.Ssa.Declarations
import ScalarSsa.Proofs.Ssa.Interleavings
import ScalarSsa.Proofs.Program.RoundTrip
import ScalarSsa.Proofs.Flow.Dominators
import ScalarSsa.Proofs.Pass.NormalForm
import ScalarSsa.Proofs.Machine.Limits
import ScalarSsa.Proofs.Lowering.Regions
