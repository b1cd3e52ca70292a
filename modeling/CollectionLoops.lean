import CollectionLoops.Proofs.Source.Idempotence
import CollectionLoops.Script
import CollectionLoops.Proofs.Recording
import CollectionLoops.Proofs.CallLoop
import CollectionLoops.Proofs.MethodLoops
import CollectionLoops.Proofs.Agreement
import CollectionLoops.Proofs.Binding
import CollectionLoops.Proofs.Schedule
import CollectionLoops.Proofs.MapResults
import CollectionLoops.Proofs.BranchFlag
import CollectionLoops.Proofs.Folds
import CollectionLoops.Proofs.BranchAtCall
import CollectionLoops.Proofs.OwnEffects
import CollectionLoops.Proofs.ArrayLike
import CollectionLoops.Proofs.Interchange
import CollectionLoops.Proofs.FilterResults
import CollectionLoops.Proofs.Quantifiers
import CollectionLoops.Proofs.Unwrapping
import CollectionLoops.Proofs.Reachability
import CollectionLoops.Proofs.Locality
import CollectionLoops.Proofs.LocalLoops
import CollectionLoops.Proofs.Confinement
import CollectionLoops.Proofs.LocalOperations
import CollectionLoops.Proofs.LocalScripts
import CollectionLoops.Proofs.StructuralEquality
import CollectionLoops.Proofs.Noninterference
import CollectionLoops.Proofs.FoldDuality
import CollectionLoops.Proofs.Uncallable
import CollectionLoops.Proofs.ScriptCalls
import CollectionLoops.Proofs.FoldIndices
import CollectionLoops.Proofs.Source.Nesting
import CollectionLoops.Proofs.KeyReads
import CollectionLoops.Proofs.DataText
