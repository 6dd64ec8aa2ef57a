import EagerLambda.Eval.Evaluator
import EagerLambda.Eval.Stock
import EagerLambda.Interchange.Reader
import EagerLambda.Syntax.Outline
import EagerLambda.Proofs.Contents
import EagerLambda.Proofs.BigStep
import EagerLambda.Proofs.Runs
import EagerLambda.Proofs.Machines
import EagerLambda.Proofs.Invariants
import EagerLambda.Proofs.Adequacy
import EagerLambda.Proofs.Scope
import EagerLambda.Proofs.Simulation
import EagerLambda.Proofs.Closures
import EagerLambda.Proofs.Coincidence
import EagerLambda.Proofs.Recursion
import EagerLambda.Proofs.Cutoff
import EagerLambda.Proofs.Limit
import EagerLambda.Proofs.Interruption
import EagerLambda.Proofs.RoundTrip
import EagerLambda.Proofs.Unambiguity
import EagerLambda.Proofs.Renaming
import EagerLambda.Proofs.Residue
import EagerLambda.Proofs.Spelling
import EagerLambda.Proofs.Trail
import EagerLambda.Proofs.Erasure
import EagerLambda.Proofs.Causes
import EagerLambda.Proofs.Guards
import EagerLambda.Proofs.Making
import EagerLambda.Proofs.Identity
import EagerLambda.Proofs.Arithmetic
import EagerLambda.Proofs.Threshold
import EagerLambda.Proofs.Cipher
import EagerLambda.Proofs.Knots
import EagerLambda.Proofs.Currying
import EagerLambda.Proofs.Characters
import EagerLambda.Proofs.Faces
