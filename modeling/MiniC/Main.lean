import MiniC.Command

/-!
The program: it reads the input, creates the output, and prints what the run
comes to.
-/

namespace MiniC

def FileFault.ofError : IO.Error → FileFault
  | .noFileOrDirectory _ _ _ => .missing
  | .permissionDenied _ _ _ => .denied
  | .inappropriateType _ _ _ => .isDirectory
  | failure => .other (toString failure)

def attempt {α : Type} (action : IO α) : IO (Except FileFault α) := do
  match ← action.toBaseIO with
  | .ok a => pure (.ok a)
  | .error error => pure (.error (.ofError error))

def Command.readInput (command : Command) : IO (Except FileFault (List UInt8)) :=
  attempt do pure (← IO.FS.readBinFile command.input).data.toList

/-- Creates the output, unless the input has failed already. -/
def Command.createOutput (command : Command) (contents : Except FileFault (List UInt8)) :
    IO (Except FileFault Unit) :=
  match command.output, source contents with
  | some path, .ok _ => attempt (IO.FS.writeFile path "")
  | _, _ => pure (.ok ())

def Printed.print : Printed → IO Unit
  | log line | text line => IO.eprint line

def Command.perform (command : Command) : IO UInt32 := do
  let contents ← command.readInput
  let created ← command.createOutput contents
  let transcript := command.run contents created
  transcript.printed.forM Printed.print
  match command.output, transcript.output with
  | some path, some text => IO.FS.writeFile path text
  | _, _ => pure ()
  pure (UInt32.ofNat transcript.exitCode)

end MiniC

def main (arguments : List String) : IO UInt32 :=
  match MiniC.Command.ofArguments? arguments with
  | some command => command.perform
  | none => do
    IO.eprint MiniC.Command.usage
    pure 2
