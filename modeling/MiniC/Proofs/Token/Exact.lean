import MiniC.Token.Cursor

/-!
What a scanned token is known to be. A kind with one spelling has that text, a
name is no keyword, and the end of the source is not among the tokens.
-/

namespace MiniC

structure Token.Exact (token : Token) : Prop where
  spelled : ∀ text, token.kind.spelling? = some text → token.text = text
  unreserved : token.kind = .ident → token.text ≠ "main"
  present : token.kind ≠ .eof

namespace TokenKind

theorem keyword?_spelling {word : String} {kind : TokenKind} (found : keyword? word = some kind) :
    kind.spelling? = some word := by
  have hit := List.find?_some found
  exact beq_iff_eq.mp hit

theorem keyword?_main : keyword? "main" = some .mainKw := by decide

end TokenKind

namespace Piece

/-- What the kind of a piece says about the text it covers. -/
structure Covers (piece : Piece) (bytes : List UInt8) : Prop where
  spelled : ∀ text, piece.kind.spelling? = some text →
    Text.decode (bytes.take piece.length) = text
  unreserved : piece.kind = .ident → Text.decode (bytes.take piece.length) ≠ "main"

theorem take_takeWhile_length (member : UInt8 → Bool) (bytes : List UInt8) :
    bytes.take (bytes.takeWhile member).length = bytes.takeWhile member := by
  exact List.prefix_iff_eq_take.mp (List.takeWhile_prefix member) |>.symm

theorem word_covers (bytes : List UInt8) : (word bytes).Covers bytes := by
  constructor
  · intro text spelling
    simp only [word, take_takeWhile_length] at spelling ⊢
    cases found : TokenKind.keyword? (Text.decode (bytes.takeWhile isWordByte)) with
    | none => simp [found, TokenKind.spelling?] at spelling
    | some kind =>
      simp only [found, Option.getD_some, TokenKind.keyword?_spelling found,
        Option.some.injEq] at spelling
      exact spelling
  · intro isIdent isMain
    simp only [word, take_takeWhile_length] at isIdent isMain
    rw [isMain, TokenKind.keyword?_main] at isIdent
    exact absurd isIdent (by decide)

theorem decode_spelled (kind : TokenKind) (listed : kind ∈ TokenKind.symbols) :
    kind.spelling? = some (Text.decode (spelled kind)) := by
  revert kind
  decide

theorem symbol?_covers {bytes : List UInt8} {kind : TokenKind}
    (found : symbol? bytes = some kind) :
    (⟨kind, (spelled kind).length, []⟩ : Piece).Covers bytes := by
  have listed := List.mem_of_find?_eq_some found
  have opening : spelled kind <+: bytes := by
    simpa using List.find?_some (p := fun kind => (spelled kind).isPrefixOf bytes) found
  have taken : bytes.take (spelled kind).length = spelled kind :=
    (List.prefix_iff_eq_take.mp opening).symm
  constructor
  · intro text spelling
    rw [decode_spelled kind listed, Option.some.injEq] at spelling
    rw [taken, spelling]
  · intro isIdent
    subst isIdent
    exact absurd listed (by decide)

theorem unspelled_covers {piece : Piece} {bytes : List UInt8} (free : piece.kind.spelling? = none)
    (noName : piece.kind ≠ .ident) : piece.Covers bytes :=
  ⟨fun text spelling => by simp [free] at spelling, fun isIdent => absurd isIdent noName⟩

theorem ofBytes_covers (bytes : List UInt8) : (ofBytes bytes).Covers bytes := by
  cases bytes with
  | nil => exact unspelled_covers rfl (by rintro ⟨⟩)
  | cons b rest =>
    simp only [ofBytes]
    split
    · exact word_covers _
    split
    · exact unspelled_covers rfl (by rintro ⟨⟩)
    split
    · exact unspelled_covers rfl (by rintro ⟨⟩)
    split
    · exact unspelled_covers rfl (by rintro ⟨⟩)
    split
    · next found => exact symbol?_covers found
    · exact unspelled_covers rfl (by rintro ⟨⟩)

end Piece

namespace Cursor

theorem scan_exact (cursor : Cursor) (found : cursor.scan.1.token.kind ≠ .eof) :
    cursor.scan.1.token.Exact := by
  have covers := Piece.ofBytes_covers (cursor.advance (Gap.ofBytes cursor.rest).length).rest
  exact ⟨covers.spelled, covers.unreserved, found⟩

theorem scanAll_exact (cursor : Cursor) : ∀ lexeme ∈ cursor.scanAll.lexemes,
    lexeme.token.Exact := by
  fun_induction scanAll cursor with
  | case1 cursor found isEnd => simp
  | case2 cursor found more later ih =>
    intro lexeme member
    cases List.mem_cons.mp member with
    | inl isFirst => exact isFirst ▸ scan_exact cursor more
    | inr isLater => exact ih lexeme isLater

end Cursor

theorem Scanned.ofSource_exact (name source : String) :
    ∀ lexeme ∈ (Scanned.ofSource name source).lexemes, lexeme.token.Exact :=
  Cursor.scanAll_exact _

end MiniC
