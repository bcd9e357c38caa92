import MiniC.Token.Piece

/-!
A place in the source while it is scanned: the bytes still to come, the offset
of the first of them, and the lines seen so far. Each scan passes a gap, takes
the longest token behind it and resolves its place and its faults against the
lines known then. At the end of the source every scan gives the end token.
-/

namespace MiniC

structure Cursor where
  rest : List UInt8
  offset : Nat
  lines : LineIndex
deriving DecidableEq

/-- A source cut up: its tokens, the end that follows them, and the cursor
there. -/
structure Scanned where
  lexemes : List Lexeme
  ending : Lexeme
  stop : Cursor
deriving DecidableEq

namespace Scanned

def all (scanned : Scanned) : List Lexeme := scanned.lexemes ++ [scanned.ending]

def tokens (scanned : Scanned) : List Token := scanned.all.map (·.token)

def faults (scanned : Scanned) : List Diagnostic := scanned.all.flatMap (·.faults)

def lineCount (scanned : Scanned) : Nat := scanned.stop.lines.count

end Scanned

namespace Cursor

def atStart (file source : String) : Cursor :=
  let bytes := Text.bytes source
  ⟨bytes, 0, LineIndex.ofSize file bytes.length⟩

/-- Passes one byte; the byte after a newline starts a line. -/
def step (cursor : Cursor) : Cursor :=
  match cursor.rest with
  | [] => cursor
  | b :: rest =>
    { rest
      offset := cursor.offset + 1
      lines := if b = Text.newline then cursor.lines.add (cursor.offset + 1) else cursor.lines }

def advance : Nat → Cursor → Cursor
  | 0, cursor => cursor
  | n + 1, cursor => advance n cursor.step

def locate (cursor : Cursor) (base : Nat) (placed : PlacedFault) : Diagnostic :=
  placed.fault.diagnose (cursor.lines.position (base + placed.offset))

def gapFaults (gap : Gap) : List PlacedFault :=
  gap.unclosed.toList.map (⟨·, .unclosedComment⟩)

def scan (cursor : Cursor) : Lexeme × Cursor :=
  let gap := Gap.ofBytes cursor.rest
  let start := cursor.advance gap.length
  let piece := Piece.ofBytes start.rest
  let stop := start.advance piece.length
  let token : Token :=
    { kind := piece.kind
      text := Text.decode (start.rest.take piece.length)
      pos := stop.lines.position start.offset }
  (⟨token, (gapFaults gap).map (stop.locate cursor.offset) ++
      piece.faults.map (stop.locate start.offset)⟩, stop)

theorem step_rest (cursor : Cursor) : cursor.step.rest = cursor.rest.tail := by
  unfold step
  split <;> simp_all

theorem advance_rest (n : Nat) (cursor : Cursor) :
    (cursor.advance n).rest = cursor.rest.drop n := by
  induction n generalizing cursor with
  | zero => rfl
  | succ n ih => rw [advance, ih, step_rest, List.drop_tail]

theorem scan_rest (cursor : Cursor) :
    cursor.scan.2.rest =
      (cursor.rest.drop (Gap.ofBytes cursor.rest).length).drop
        (Piece.ofBytes (cursor.rest.drop (Gap.ofBytes cursor.rest).length)).length := by
  simp [scan, advance_rest]

theorem scan_kind (cursor : Cursor) :
    cursor.scan.1.token.kind =
      (Piece.ofBytes (cursor.rest.drop (Gap.ofBytes cursor.rest).length)).kind := by
  simp [scan, advance_rest]

/-- A scan that does not find the end of the source gets on. -/
theorem scan_shortens (cursor : Cursor) (found : cursor.scan.1.token.kind ≠ .eof) :
    cursor.scan.2.rest.length < cursor.rest.length := by
  rw [scan_kind] at found
  rw [scan_rest]
  have more : cursor.rest.drop (Gap.ofBytes cursor.rest).length ≠ [] := by
    intro none
    simp [none, Piece.ofBytes] at found
  have taken := Piece.ofBytes_length_pos _ more
  have left := List.length_pos_iff.mpr more
  simp only [List.length_drop] at left ⊢
  omega

/-- Scans up to the end of the source. -/
def scanAll (cursor : Cursor) : Scanned :=
  let found := cursor.scan
  if _ : found.1.token.kind = .eof then ⟨[], found.1, found.2⟩
  else
    let later := scanAll found.2
    { later with lexemes := found.1 :: later.lexemes }
termination_by cursor.rest.length
decreasing_by exact scan_shortens cursor (by assumption)

/-- The next `n` scans. -/
def scanMany : Nat → Cursor → List Lexeme × Cursor
  | 0, cursor => ([], cursor)
  | n + 1, cursor =>
    let (lexeme, next) := cursor.scan
    let (later, stop) := scanMany n next
    (lexeme :: later, stop)

end Cursor

def Scanned.ofSource (file source : String) : Scanned :=
  (Cursor.atStart file source).scanAll

end MiniC
