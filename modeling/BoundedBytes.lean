import BoundedBytes.Demo.Coded
import BoundedBytes.Demo.Queue
import BoundedBytes.Demo.Stack
import BoundedBytes.Proofs.Alongside
import BoundedBytes.Proofs.Block
import BoundedBytes.Proofs.Frame
import BoundedBytes.Proofs.Order
import BoundedBytes.Proofs.Placement
import BoundedBytes.Proofs.Reachable
import BoundedBytes.Proofs.Reading
import BoundedBytes.Proofs.Report.Verdict
import BoundedBytes.Proofs.Reset
import BoundedBytes.Proofs.Room
import BoundedBytes.Proofs.Word.Sum
