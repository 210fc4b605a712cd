import Chip8.Framebuffer.Text
import Chip8.Folder
import Chip8.Machine.Command
import Chip8.Machine.Run
import Chip8.Main
import Chip8.Memory.Lemmas
import Chip8.Memory.Wide
import Chip8.Proofs.CallStack
import Chip8.Proofs.Instruction.Digits
import Chip8.Proofs.Machine.Stepping
import Chip8.Proofs.Machine.Flow
import Chip8.Proofs.Machine.Bounds
import Chip8.Proofs.Framebuffer.Cells
import Chip8.Proofs.InPlace.Blit
import Chip8.Proofs.Framebuffer.Sprites
import Chip8.Proofs.InPlace.Work
import Chip8.Proofs.InPlace.Execution
import Chip8.Proofs.InPlace.Command
import Chip8.Proofs.Machine.Calls
import Chip8.Proofs.Machine.Halting
import Chip8.Proofs.Machine.Waiting
import Chip8.Proofs.Machine.Writes
import Chip8.Proofs.Machine.Timing
import Chip8.Proofs.Machine.Randomness
import Chip8.Proofs.Listing
import Chip8.Proofs.Machine.Inputs
import Chip8.Proofs.Session
import Chip8.Proofs.Machine.Program
import Chip8.Proofs.Machine.Straight
import Chip8.Proofs.Machine.Changes
import Chip8.Proofs.Listing.Reading
import Chip8.Proofs.Framebuffer.Rendering
import Chip8.Proofs.Terminal.Area
import Chip8.Proofs.Keypad
import Chip8.Proofs.Session.Typed
import Chip8.Proofs.Registers
import Chip8.Proofs.Machine.Arithmetic
import Chip8.Proofs.Machine.Destination
import Chip8.Proofs.Machine.Loading
import Chip8.Proofs.Memory.Wide
import Chip8.Proofs.CallStack.Bounded
import Chip8.Proofs.Keypad.Holding
import Chip8.Proofs.Machine.Redraw
import Chip8.Proofs.Instruction.Assembly
import Chip8.Proofs.Listing.Mnemonics
