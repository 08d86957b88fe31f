import Dataflow.Device.Feed
import Dataflow.Main
import Dataflow.Proofs.Operands
import Dataflow.Proofs.Restriction
import Dataflow.Proofs.Saving
import Dataflow.Proofs.Retention
import Dataflow.Proofs.Framing
import Dataflow.Proofs.Listening
import Dataflow.Proofs.Cycles
import Dataflow.Proofs.Faults
import Dataflow.Proofs.Gates
import Dataflow.Proofs.Locality
import Dataflow.Proofs.Settings
import Dataflow.Proofs.TableOrder
import Dataflow.Proofs.Runs
import Dataflow.Proofs.Continuation
import Dataflow.Proofs.Loading
import Dataflow.Proofs.Labels
import Dataflow.Proofs.Ramps
import Dataflow.Proofs.NumberText
import Dataflow.Proofs.Cells
import Dataflow.Proofs.TypedSlots
import Dataflow.Proofs.Window
import Dataflow.Proofs.Names
import Dataflow.Proofs.CellNumbers
import Dataflow.Proofs.ReleaseSteps
import Dataflow.Proofs.KeyedSamples
import Dataflow.Proofs.Grouping
