import MiniC.Stmt.Parser
import MiniC.Stmt.Check

/-!
Compiling a source text. It is read into a tree, with the log of the reading,
and the tree is checked, whatever was found before; everything found is in one
log. The report of that log is what a user sees.
-/

namespace MiniC

structure Parsed where
  file : File
  log : Log
  lineCount : Nat

def parse (name source : String) : Parsed :=
  let scanned := Scanned.ofSource name source
  let stream := Stream.ofScanned scanned
  let outcome := (fileParser name scanned.lineCount).run stream
  ⟨outcome.value, stream.arrival ++ outcome.log, scanned.lineCount⟩

namespace FuncDecl

/-- The return type, the name, and a type and a name for each parameter. -/
def signature (f : FuncDecl) : String × String × List String :=
  (f.returns.display, f.name.text,
    f.params.params.map fun param => param.ty.display ++ " " ++ param.name.text)

end FuncDecl

structure Compilation where
  file : File
  /-- The names of the file that are left in scope. -/
  scope : Scope
  readingLog : Log
  checkingLog : Log
  lineCount : Nat

namespace Compilation

def ofParsed (parsed : Parsed) : Compilation :=
  let outcome := parsed.file.check.run .start
  ⟨parsed.file, outcome.value, parsed.log, outcome.log, parsed.lineCount⟩

/-- The log of reading and checking. -/
def work (compilation : Compilation) : Log := compilation.readingLog ++ compilation.checkingLog

def report (compilation : Compilation) : Report := compilation.work.report

def isClean (compilation : Compilation) : Bool := compilation.report.isEmpty

/-- The whole log, its last entry the summary. -/
def log (compilation : Compilation) : Log :=
  compilation.work ++
    [.compiled compilation.file.name compilation.lineCount compilation.report.syntacticCount
      compilation.report.size]

end Compilation

def compile (name source : String) : Compilation := .ofParsed (parse name source)

/-- Scanning alone: the tokens, the end among them, and the faults found. -/
def tokenize (name source : String) : List Token × Report :=
  let scanned := Scanned.ofSource name source
  (scanned.tokens, .ofRaised scanned.faults)

namespace File

/-- The names a declaration gives. -/
def declaredNames : Decl → List String
  | .bad _ => []
  | .func _ f => [f.name.text]
  | .vars _ v => v.declarators.map (·.name.text)

/-- Names of the top-level declarations, each once, in order of appearance. -/
def names (file : File) : List String := (file.decls.flatMap declaredNames).eraseDups

end File

end MiniC
