import MiniC.Diagnostic

/-!
Tokens. Keywords and symbols are written in one way only, their spelling; the
other kinds stand for a class of texts. Each kind has a code for listings and a
description for messages. Some symbols are signs and binary operators:
relational operators bind weakest, then sums, then products; all of them group
to the left.

A token is a kind, its text as written, and its place. Quoted literals keep
their quotes. A lexeme adds what was wrong with the bytes up to the token's
end, those of the gap in front of it included.
-/

namespace MiniC

inductive Sign where
  | plus | minus
deriving DecidableEq

def Sign.symbol : Sign → String
  | .plus => "+"
  | .minus => "-"

inductive BinOp where
  | add | sub | mul | div | lt | le | gt | ge | eq | ne
deriving DecidableEq

namespace BinOp

def isRelational : BinOp → Bool
  | .lt | .le | .gt | .ge | .eq | .ne => true
  | .add | .sub | .mul | .div => false

def precedence : BinOp → Nat
  | .lt | .le | .gt | .ge | .eq | .ne => 1
  | .add | .sub => 2
  | .mul | .div => 3

def symbol : BinOp → String
  | .add => "+"
  | .sub => "-"
  | .mul => "*"
  | .div => "/"
  | .lt => "<"
  | .le => "<="
  | .gt => ">"
  | .ge => ">="
  | .eq => "=="
  | .ne => "!="

end BinOp

inductive TokenKind where
  | illegal
  | ident | intLit | charLit | strLit
  | constKw | intKw | charKw | voidKw | mainKw | ifKw | elseKw | switchKw
  | caseKw | defaultKw | whileKw | forKw | scanfKw | printfKw | returnKw
  | plus | minus | star | slash | lt | le | gt | ge | eqEq | notEq
  | colon | assign | semicolon | comma
  | lParen | rParen | lBracket | rBracket | lBrace | rBrace
  | eof
deriving DecidableEq

namespace TokenKind

def keywords : List TokenKind :=
  [.constKw, .intKw, .charKw, .voidKw, .mainKw, .ifKw, .elseKw, .switchKw,
   .caseKw, .defaultKw, .whileKw, .forKw, .scanfKw, .printfKw, .returnKw]

/-- Symbols of two characters come first, so that the first one that fits is
the longest one. -/
def symbols : List TokenKind :=
  [.le, .ge, .eqEq, .notEq,
   .plus, .minus, .star, .slash, .lt, .gt, .colon, .assign, .semicolon, .comma,
   .lParen, .rParen, .lBracket, .rBracket, .lBrace, .rBrace]

def all : List TokenKind :=
  [.illegal, .ident, .intLit, .charLit, .strLit] ++ keywords ++ symbols ++ [.eof]

def spelling? : TokenKind → Option String
  | .illegal | .ident | .intLit | .charLit | .strLit | .eof => none
  | .constKw => some "const"
  | .intKw => some "int"
  | .charKw => some "char"
  | .voidKw => some "void"
  | .mainKw => some "main"
  | .ifKw => some "if"
  | .elseKw => some "else"
  | .switchKw => some "switch"
  | .caseKw => some "case"
  | .defaultKw => some "default"
  | .whileKw => some "while"
  | .forKw => some "for"
  | .scanfKw => some "scanf"
  | .printfKw => some "printf"
  | .returnKw => some "return"
  | .plus => some "+"
  | .minus => some "-"
  | .star => some "*"
  | .slash => some "/"
  | .lt => some "<"
  | .le => some "<="
  | .gt => some ">"
  | .ge => some ">="
  | .eqEq => some "=="
  | .notEq => some "!="
  | .colon => some ":"
  | .assign => some "="
  | .semicolon => some ";"
  | .comma => some ","
  | .lParen => some "("
  | .rParen => some ")"
  | .lBracket => some "["
  | .rBracket => some "]"
  | .lBrace => some "\x7b"
  | .rBrace => some "\x7d"

/-- The keyword that a word spells, if it spells one. -/
def keyword? (word : String) : Option TokenKind :=
  keywords.find? (·.spelling? == some word)

def code : TokenKind → String
  | .illegal => "ILLEGAL"
  | .ident => "IDENFR"
  | .intLit => "INTCON"
  | .charLit => "CHARCON"
  | .strLit => "STRCON"
  | .constKw => "CONSTTK"
  | .intKw => "INTTK"
  | .charKw => "CHARTK"
  | .voidKw => "VOIDTK"
  | .mainKw => "MAINTK"
  | .ifKw => "IFTK"
  | .elseKw => "ELSETK"
  | .switchKw => "SWITCHTK"
  | .caseKw => "CASETK"
  | .defaultKw => "DEFAULTTK"
  | .whileKw => "WHILETK"
  | .forKw => "FORTK"
  | .scanfKw => "SCANFTK"
  | .printfKw => "PRINTFTK"
  | .returnKw => "RETURNTK"
  | .plus => "PLUS"
  | .minus => "MINU"
  | .star => "MULT"
  | .slash => "DIV"
  | .lt => "LSS"
  | .le => "LEQ"
  | .gt => "GRE"
  | .ge => "GEQ"
  | .eqEq => "EQL"
  | .notEq => "NEQ"
  | .colon => "COLON"
  | .assign => "ASSIGN"
  | .semicolon => "SEMICN"
  | .comma => "COMMA"
  | .lParen => "LPARENT"
  | .rParen => "RPARENT"
  | .lBracket => "LBRACK"
  | .rBracket => "RBRACK"
  | .lBrace => "LBRACE"
  | .rBrace => "RBRACE"
  | .eof => "END_OF_FILE"

def ofCode? (text : String) : Option TokenKind := all.find? (·.code == text)

/-- How a message names the kind: a fixed spelling in quotes, a class in words. -/
def description (kind : TokenKind) : String :=
  match kind.spelling? with
  | some spelling => "'" ++ spelling ++ "'"
  | none =>
    match kind with
    | .illegal => "illegal token"
    | .ident => "identifier"
    | .intLit => "int literal"
    | .charLit => "char literal"
    | .strLit => "string literal"
    | _ => "end of file"

/-- Kinds whose texts vary: names and literals. -/
def isLiteral : TokenKind → Bool
  | .ident | .intLit | .charLit | .strLit => true
  | _ => false

def binOp? : TokenKind → Option BinOp
  | .plus => some .add
  | .minus => some .sub
  | .star => some .mul
  | .slash => some .div
  | .lt => some .lt
  | .le => some .le
  | .gt => some .gt
  | .ge => some .ge
  | .eqEq => some .eq
  | .notEq => some .ne
  | _ => none

def sign? : TokenKind → Option Sign
  | .plus => some .plus
  | .minus => some .minus
  | _ => none

def isRelational (kind : TokenKind) : Bool := kind.binOp?.any BinOp.isRelational

/-- How tightly the kind binds as a binary operator; 0 if it is none. -/
def precedence (kind : TokenKind) : Nat := (kind.binOp?.map BinOp.precedence).getD 0

end TokenKind

structure Token where
  kind : TokenKind
  text : String
  pos : Position
deriving DecidableEq

/-- The token as a message shows it: its description, and its text where the
kind does not fix it. -/
def Token.shown (token : Token) : String :=
  if token.kind.isLiteral || token.kind = .illegal then
    token.kind.description ++ " " ++ token.text
  else token.kind.description

structure Lexeme where
  token : Token
  faults : List Diagnostic
deriving DecidableEq

end MiniC
