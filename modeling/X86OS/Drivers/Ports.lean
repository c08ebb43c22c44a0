import Mathlib.Tactic

set_option autoImplicit false

namespace X86OS.Drivers

-- The bytes written to the I/O ports, the newest first.
abbrev Ports := List (Nat × BitVec 8)

def outb (port : Nat) (value : BitVec 8) (ports : Ports) : Ports := (port, value) :: ports

def ioWait (ports : Ports) : Ports := outb 0x80 0 ports

def lastOut (port : Nat) (ports : Ports) : Option (BitVec 8) := (ports.find? (fun write => write.1 = port)).map Prod.snd

@[simp] theorem last_out_here (port : Nat) (value : BitVec 8) (ports : Ports) :
    lastOut port (outb port value ports) = some value := by
  simp [lastOut, outb]

theorem last_out_other (port other : Nat) (value : BitVec 8) (ports : Ports) (differ : other ≠ port) :
    lastOut port (outb other value ports) = lastOut port ports := by
  simp [lastOut, outb, differ]

end X86OS.Drivers
