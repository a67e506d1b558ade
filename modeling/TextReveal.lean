import TextReveal.Cancellation
import TextReveal.Handler.Scripted
import TextReveal.Hub.Stock
import TextReveal.Main
import TextReveal.Player.Description
import TextReveal.Player.Turnover
import TextReveal.Proofs.Broadcasting
import TextReveal.Proofs.Concord
import TextReveal.Proofs.Delivery
import TextReveal.Proofs.Diagnosing
import TextReveal.Proofs.Firing
import TextReveal.Proofs.Inserting
import TextReveal.Proofs.Overtaking
import TextReveal.Proofs.Playable
import TextReveal.Proofs.Printing
import TextReveal.Proofs.Registering
import TextReveal.Proofs.Rereading
import TextReveal.Proofs.Resolving
import TextReveal.Proofs.Restoring
import TextReveal.Proofs.Skipping
import TextReveal.Proofs.Watching
import TextReveal.Strip
import TextReveal.Terminal
import TextReveal.Validation
