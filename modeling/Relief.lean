import Relief.Document.Coding
import Relief.Machine
import Relief.Openness
import Relief.Shadow
import Relief.Proofs.Accesses
import Relief.Proofs.Aspect
import Relief.Proofs.Balance
import Relief.Proofs.Coding
import Relief.Proofs.Dimensions
import Relief.Proofs.Events
import Relief.Proofs.Failures
import Relief.Proofs.Geometry
import Relief.Proofs.LevelGround
import Relief.Proofs.Normalized
import Relief.Proofs.Openness.Denser
import Relief.Proofs.Openness.SineRange
import Relief.Proofs.Quadrants
import Relief.Proofs.Shadow.Budget
import Relief.Proofs.Shadow.Endless
import Relief.Proofs.Shadow.LastFound
import Relief.Proofs.Shadow.LitCells
import Relief.Proofs.Shadow.Raised
import Relief.Proofs.Shadow.Seam
import Relief.Proofs.Shadow.Sunward
import Relief.Proofs.Shadow.Unbroken
import Relief.Proofs.Shadow.WithinRelief
import Relief.Proofs.UnitBox
import Relief.Proofs.Voids
import Relief.Proofs.Writes
