import Chip8.CommandLine
import Chip8.Main
import Chip8.Proofs.Change
import Chip8.Proofs.Cycle
import Chip8.Proofs.Failure
import Chip8.Proofs.Bounds
import Chip8.Proofs.KeyWait
import Chip8.Proofs.Frame
import Chip8.Proofs.Footprint
import Chip8.Proofs.Modes
import Chip8.Proofs.Drawing
import Chip8.Proofs.CallStack
import Chip8.Proofs.Margin
import Chip8.Proofs.Lockstep
import Chip8.Proofs.Overflow
import Chip8.Proofs.Commutation
import Chip8.Proofs.KeyDelivery
import Chip8.Proofs.KeyOffers
import Chip8.Proofs.Listener
import Chip8.Proofs.Handout
import Chip8.Proofs.Window
import Chip8.Proofs.Stopping
import Chip8.Proofs.Stock
import Chip8.Proofs.MainLoop
import Chip8.Proofs.ExitCode
import Chip8.Proofs.Slices
import Chip8.Proofs.Timers
import Chip8.Proofs.KeyHistory
import Chip8.Proofs.Patterns
import Chip8.Proofs.Words
import Chip8.Proofs.Sprite
import Chip8.Proofs.Overlay
import Chip8.Proofs.Combining
import Chip8.Proofs.Transfer
import Chip8.Proofs.Decimal
import Chip8.Proofs.Deeds
import Chip8.Proofs.Journal
import Chip8.Proofs.Loading
import Chip8.Proofs.Rendering
