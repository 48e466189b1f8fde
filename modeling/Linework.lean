import Linework.Main
import Linework.Proofs.Brightening
import Linework.Proofs.Containment
import Linework.Proofs.DisplayListRoundTrip
import Linework.Proofs.Edges
import Linework.Proofs.FaultIsolation
import Linework.Proofs.Fitting
import Linework.Proofs.Framing
import Linework.Proofs.SettingsReading
import Linework.Proofs.KeyOrder
import Linework.Proofs.LeastBounds
import Linework.Proofs.NormalForm
import Linework.Proofs.PassOrder
import Linework.Proofs.Polygons
import Linework.Proofs.Primitives
import Linework.Proofs.Rectangles
import Linework.Proofs.SceneRewriting
import Linework.Proofs.Turning
import Linework.Proofs.Validation
import Linework.Scalar.Exact
import Linework.Session
import Linework.Viewport
