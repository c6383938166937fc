import SelfmadeOS.Terminal
import SelfmadeOS.Uart

/-!
# The logger (`kernel_logger.cpp`) and what it calls

`vlog`, `terminal::printf` and the two GPU commands call each other: a command whose answer is
not `VIRTIO_GPU_RESP_OK_NODATA` is logged, and logging sends two commands. Each function takes
the one that it calls back as a parameter; `vlog` ties the knot with a bound on its own depth.
The device completes every command, with the answer that is next in `responses`.
-/

namespace SelfmadeOS
set_option autoImplicit false
open CStrings

def respOkNodata : Nat := 0x1100

/-- The memory that a call of `vlog` finds, and where its array lies. -/
structure VlogMemory where
  output : Buffer maxTextLength
  outputAddress : Nat
  sent : UartMemory maxTextLength
  newLine : UartMemory 3

structure Logger where
  logTerminal : Option Terminal
  uart : List (List Char)
  responses : Nat → Nat
  commands : Nat
  memory : Nat → VlogMemory
  vlogs : Nat

abbrev Log := List Char → (Nat → Arg) → Logger → Option Logger

namespace Logger

def send (s : Logger) (chars : List Char) : Logger := { s with uart := s.uart ++ [chars] }

def answered (s : Logger) : Logger := { s with commands := s.commands + 1 }

/-- A command is sent and answered; any answer but `okNodata` is logged. -/
def command (log : Log) (fmt : List Char) (args : Nat → Nat → Arg) (s : Logger) :
    Option Logger :=
  let type := s.responses s.commands
  if type ≠ respOkNodata then log fmt (args type) s.answered else some s.answered

end Logger

def wordArg (word : Nat) : Arg := ⟨word, CString.empty⟩

def transferToHost2d (log : Log) : Logger → Option Logger :=
  Logger.command log ("Wrong return typ for transfer: %x".toList ++ [nul])
    fun type n => wordArg (if n = 1 then type else 0)

def resourceFlush (log : Log) : Logger → Option Logger :=
  Logger.command log ("Wrong return typ for resource flush: ".toList ++ [nul])
    fun type n => wordArg (if n = 1 then type else 0)

/-- `terminal::printf` on the terminal of the logger, with the two commands that it ends with. -/
def terminalPrintf (log : Log) (t : Terminal) (m : Message) (s : Logger) : Option Logger := do
  let s ← transferToHost2d log { s with logTerminal := some (t.printf m).1 }
  resourceFlush log s

/-- The call `printf("%s", output)`. -/
def outputMessage (mem : VlogMemory) (output : List Char) : Message where
  fom := "%s".toList ++ [nul]
  args := fun _ => ⟨mem.outputAddress, ⟨cString output, cString_noNul output⟩⟩

def vlogOutput (mem : VlogMemory) (fmt : List Char) (args : Nat → Arg) : List Char :=
  (formatString fmt mem.output.chars maxTextLength args).output

def vlogTerminal (log : Log) (mem : VlogMemory) (output : List Char) (sendTerminal : Bool)
    (s : Logger) : Option Logger :=
  match s.logTerminal with
  | some t => if sendTerminal then terminalPrintf log t (outputMessage mem output) s else some s
  | none => some s

def vlogUart (mem : VlogMemory) (output : List Char) (s : Logger) : Logger :=
  (s.send (uartSend output maxTextLength mem.sent)).send
    (uartSend ['\n', nul] 3 mem.newLine)

def vlog : (depth : Nat) → List Char → (Nat → Arg) → Bool → Logger → Option Logger
  | 0, _, _, _, _ => none
  | depth + 1, fmt, args, sendTerminal, s => do
    let mem := s.memory s.vlogs
    let output := vlogOutput mem fmt args
    let s ← vlogTerminal (fun fmt args => vlog depth fmt args true) mem output sendTerminal
      { s with vlogs := s.vlogs + 1 }
    some (vlogUart mem output s)

def log (depth : Nat) : Log := fun fmt args => vlog depth fmt args true

def initTerminal (t : Terminal) (s : Logger) : Logger := { s with logTerminal := some t }

/-- Memory of NULs, but for the array of the text in `uart_send`. -/
def clearMemory (chars : Buffer maxTextLength) : VlogMemory where
  output := Buffer.replicate maxTextLength nul
  outputAddress := 0
  sent := ⟨chars, zeroArgs⟩
  newLine := ⟨Buffer.replicate 3 nul, zeroArgs⟩

def detached (chars : Buffer maxTextLength) : Logger where
  logTerminal := none
  uart := []
  responses := fun _ => respOkNodata
  commands := 0
  memory := fun _ => clearMemory chars
  vlogs := 0

end SelfmadeOS
