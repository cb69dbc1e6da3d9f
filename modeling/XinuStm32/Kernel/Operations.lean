import XinuStm32.Kernel.Devices
import XinuStm32.Kernel.Loader
import XinuStm32.Kernel.Shell
import XinuStm32.Kernel.System

/-!
# The operations of the kernel

Every function of the kernel that opens with `disable` and can be called from outside it, with the calls that the
system's steps make: `execCall` runs those.
-/

namespace XinuStm32

/-- An operation with its arguments. -/
inductive Operation where
  | call (call : Call)
  | getprio (pid : Int)
  | unsleep (pid : Int)
  | getmem (nbytes : Nat)
  | getstk (nbytes : Nat)
  | freemem (blkaddr nbytes : Nat)
  | kputc (c : UInt8)
  | addargs (pid ntok : Int) (tok : Nat) (tlen : Int) (tokbuf dummy : Nat)
  | mount (nprefixStr replace : Nat → UInt8) (device : Int)
  | getdev (devname : Nat → UInt8)
  | init (descrp : Int) (tmpstr : Nat → UInt8)
  | openDev (descrp : Int) (fuel : Nat) (name : Nat → UInt8) (buffers : NameBuffers)
  | close (descrp : Int)
  | getc (descrp : Int)
  | putc (descrp : Int) (ch : UInt8)
  | read (descrp : Int) (count : UInt32)
  | write (descrp : Int) (buffer : Nat → UInt8) (count : UInt32)
  | seek (descrp : Int)
  | control (descrp func : Int)
  | set (descrp : Int) (ch : UInt8)
  | toggle (descrp : Int)
  | readSector (descrp : Int) (sector count : UInt32)
  | writeSector (descrp : Int) (buffer : Nat → UInt8) (sector count : UInt32)
  | elfExecve (name : List UInt8) (file : Option Loader.ProgramFile)

/-- What runs besides the code of the kernel: other processes in the meantime, and the constructors of programs. -/
structure Surroundings extends Meanwhile where
  program : Loader.ProgramCode
  constructsOn : ∀ image constructor s s', program image constructor s = .ok s' →
    s.cpu.accesses <:+ s'.cpu.accesses

/-- Run an operation to its return; `none` is one that does not return. -/
def operate (others : Surroundings) (operation : Operation) (b : Board) : Option Board :=
  let within (s : Kernel) : Option Board := some { b with kernel := s }
  let device (r : Option (Reply × Board)) : Option Board := r.map Prod.snd
  match operation with
  | .call call => (execCall call b.kernel).map fun r => { b with kernel := r.2.1 }
  | .getprio pid => within (getprio pid b.kernel).2
  | .unsleep pid => within (unsleep pid b.kernel).2
  | .getmem nbytes => within (getmem nbytes b.kernel).2
  | .getstk nbytes => within (getstk nbytes b.kernel).2
  | .freemem blkaddr nbytes => within (freemem blkaddr nbytes b.kernel).2
  | .kputc c => within (kputc c b.kernel)
  | .addargs pid ntok tok tlen tokbuf dummy => within (addargs pid ntok tok tlen tokbuf dummy b.kernel).2.1
  | .mount nprefixStr replace dev => some (b.mount nprefixStr replace dev).2
  | .getdev devname => within (getdev devname b.kernel).2
  | .init descrp tmpstr => device (b.init descrp tmpstr)
  | .openDev descrp fuel name buffers => device (b.openDev descrp fuel name buffers)
  | .close descrp => device (b.close descrp)
  | .getc descrp => device (b.getc others.toMeanwhile descrp)
  | .putc descrp ch => device (b.putc others.toMeanwhile descrp ch)
  | .read descrp count => device (b.read others.toMeanwhile descrp count)
  | .write descrp buffer count => device (b.write others.toMeanwhile descrp buffer count)
  | .seek descrp => device (b.seek descrp)
  | .control descrp func => device (b.control others.toMeanwhile descrp func)
  | .set descrp ch => device (b.set descrp ch)
  | .toggle descrp => device (b.toggle descrp)
  | .readSector descrp sector count => device (b.readSector descrp sector count)
  | .writeSector descrp buffer sector count => device (b.writeSector descrp buffer sector count)
  | .elfExecve name file => (Loader.elfExecve others.program name file b.kernel).toOption.map fun r =>
      { b with kernel := r.kernel }

end XinuStm32
