import DocWeave.Comment.Parser
import DocWeave.Proofs.Text.Pieces
import DocWeave.Proofs.Text.Trim

/-!
# Decorated comments

In a decorated comment the opening and the closing mark stand on lines of their own, and every line
between them has a star and a space in front of it. `undecorate` takes away what was put there and
nothing else, whatever the lines hold: marks, stars and indentation of a line itself stay. So
reading a decorated comment is reading its body.
-/

namespace DocWeave.Comment

/-- How a line ends. -/
inductive LineEnd where
  | lf
  | crlf
  deriving DecidableEq, Repr

def LineEnd.chars : LineEnd → List Char
  | lf => ['\n']
  | crlf => ['\r', '\n']

/-- What stands on a line in front of its star or of the closing mark. -/
structure Indent where
  chars : List Char
  isBlank : ∀ c ∈ chars, Text.isBlank c = true
  not_mem : '\n' ∉ chars

/-- The text of a line: no line feed, and no carriage return that would count to the line end. -/
structure Line where
  chars : List Char
  not_mem : '\n' ∉ chars
  getLast_ne : chars.getLast? ≠ some '\r'

structure DecoratedLine where
  indent : Indent
  line : Line
  ending : LineEnd

structure DecoratedComment where
  opening : LineEnd
  lines : List DecoratedLine
  closing : Indent

/-- The line with its indentation and its star. -/
def DecoratedLine.front (line : DecoratedLine) : List Char :=
  line.indent.chars ++ '*' :: ' ' :: line.line.chars

/-- The lines from the first to the last that is not blank. -/
def trimLines (lines : List (List Char)) : List (List Char) :=
  Text.dropEndWhile isBlankLine (lines.dropWhile isBlankLine)

namespace DecoratedComment

/-- What stands between the opening and the closing mark. -/
def inner (comment : DecoratedComment) : List Char :=
  comment.opening.chars ++
    (comment.lines.flatMap fun line => line.front ++ line.ending.chars) ++ comment.closing.chars

def written (comment : DecoratedComment) : String :=
  String.ofList (['/', '*', '*'] ++ comment.inner ++ ['*', '/'])

/-- The lines without the blank ones at the start and at the end. -/
def body (comment : DecoratedComment) : String :=
  String.ofList (['\n'].intercalate (trimLines (comment.lines.map (·.line.chars))))

end DecoratedComment

/-! ## Lines -/

theorem lines_append_lineEnd {cs : List Char} (hcs : '\n' ∉ cs) (hlast : cs.getLast? ≠ some '\r')
    (ending : LineEnd) (rest : List Char) :
    Text.lines (cs ++ ending.chars ++ rest) = cs :: Text.lines rest := by
  cases ending with
  | lf =>
    rw [LineEnd.chars, List.append_assoc, List.singleton_append, Text.lines_append_lineFeed hcs,
      Text.dropCarriageReturn_of_getLast? hlast]
  | crlf =>
    have hcr : '\n' ∉ cs ++ ['\r'] := by simpa using hcs
    have hassoc : cs ++ LineEnd.crlf.chars ++ rest = cs ++ ['\r'] ++ '\n' :: rest := by
      simp [LineEnd.chars]
    rw [hassoc, Text.lines_append_lineFeed hcr, Text.dropCarriageReturn_concat]

theorem DecoratedLine.lines_append (line : DecoratedLine) (rest : List Char) :
    Text.lines (line.front ++ line.ending.chars ++ rest) = line.front :: Text.lines rest := by
  refine lines_append_lineEnd ?_ ?_ line.ending rest
  · simp [DecoratedLine.front, line.indent.not_mem, line.line.not_mem]
  · rw [DecoratedLine.front, List.getLast?_append_of_ne_nil _ (List.cons_ne_nil _ _)]
    cases hline : line.line.chars with
    | nil => decide
    | cons c cs =>
      rw [List.getLast?_cons_cons, List.getLast?_cons_cons, ← hline]
      exact line.line.getLast_ne

theorem Indent.dropBlanks_append (indent : Indent) {c : Char} (hc : Text.isBlank c = false)
    (cs : List Char) : Text.dropBlanks (indent.chars ++ c :: cs) = c :: cs := by
  have hrest : ∀ d ∈ (c :: cs).head?, Text.isBlank d = false := by simpa using hc
  exact (Text.takeWhile_dropWhile_append indent.isBlank hrest).2

/-- The star and the space go, and what follows them stays as it is. -/
theorem DecoratedLine.undecorateLine_front (line : DecoratedLine) :
    undecorateLine line.front = line.line.chars := by
  have hstar : Text.dropStart? ['*'] ('*' :: ' ' :: line.line.chars) =
      some (' ' :: line.line.chars) := Text.dropStart?_eq_some_iff.2 rfl
  have hspace : Text.dropStart? [' '] (' ' :: line.line.chars) = some line.line.chars :=
    Text.dropStart?_eq_some_iff.2 rfl
  rw [undecorateLine, DecoratedLine.front, line.indent.dropBlanks_append (by decide)]
  simp only [hstar, hspace, Option.getD_some]

theorem Indent.undecorateLine_chars (indent : Indent) : undecorateLine indent.chars = [] := by
  have hblank : Text.dropBlanks indent.chars = [] := List.dropWhile_eq_nil_iff.2 indent.isBlank
  rw [undecorateLine, hblank]
  rfl

/-- Blank lines at the ends do not count. -/
theorem trimLines_append {front lines back : List (List Char)}
    (hfront : ∀ line ∈ front, isBlankLine line = true)
    (hback : ∀ line ∈ back, isBlankLine line = true) :
    trimLines (front ++ lines ++ back) = trimLines lines := by
  have hback' : ∀ line ∈ back.reverse, isBlankLine line = true := by simpa using hback
  rw [trimLines, trimLines, List.append_assoc, List.dropWhile_append_of_pos hfront,
    List.dropWhile_append]
  split
  · rename_i hlines
    rw [List.isEmpty_iff.1 hlines, List.dropWhile_eq_nil_iff.2 hback]
  · rw [Text.dropEndWhile, List.reverse_append, List.dropWhile_append_of_pos hback',
      Text.dropEndWhile]

/-! ## Comments -/

namespace DecoratedComment

/-- Every line is found again; the line of the closing mark has only its indentation, if that. -/
theorem lines_inner (comment : DecoratedComment) :
    ∃ back, Text.lines comment.inner = [] :: comment.lines.map DecoratedLine.front ++ back ∧
      ∀ line ∈ back, line = comment.closing.chars := by
  obtain ⟨opening, lines, closing⟩ := comment
  refine ⟨Text.lines closing.chars, ?_, ?_⟩
  · have hopening := lines_append_lineEnd List.not_mem_nil (by simp) opening
    rw [inner, List.append_assoc, ← List.nil_append opening.chars, hopening, List.cons_append]
    congr 1
    induction lines with
    | nil => rfl
    | cons line lines ih =>
      rw [List.flatMap_cons, List.append_assoc, line.lines_append, ih, List.map_cons,
        List.cons_append]
  · rw [Text.lines_of_not_mem closing.not_mem]
    split <;> simp

theorem undecorateLines_inner (comment : DecoratedComment) :
    undecorateLines comment.inner = trimLines (comment.lines.map (·.line.chars)) := by
  obtain ⟨back, hlines, hback⟩ := comment.lines_inner
  have hstars : (comment.lines.map DecoratedLine.front).map undecorateLine =
      comment.lines.map (·.line.chars) := by
    rw [List.map_map]
    exact List.map_congr_left fun line _ => line.undecorateLine_front
  have hblank : ∀ line ∈ back.map undecorateLine, isBlankLine line = true := by
    intro line hline
    obtain ⟨chars, hchars, rfl⟩ := List.mem_map.1 hline
    rw [hback chars hchars, comment.closing.undecorateLine_chars]
    rfl
  calc undecorateLines comment.inner
    _ = trimLines ([[]] ++ comment.lines.map (·.line.chars) ++ back.map undecorateLine) := by
      rw [undecorateLines, hlines, List.cons_append, List.map_cons, List.map_append, hstars]
      rfl
    _ = trimLines (comment.lines.map (·.line.chars)) :=
      trimLines_append (by simp [isBlankLine]) hblank

theorem inner?_written (comment : DecoratedComment) :
    inner? comment.written.toList = some comment.inner := by
  have htrimmed : Text.Trimmed (['/', '*', '*'] ++ comment.inner ++ ['*', '/']) := by
    refine ⟨fun c hc => ?_, fun c hc => ?_⟩
    · cases hc
      decide
    · rw [List.getLast?_append_of_ne_nil _ (List.cons_ne_nil _ _)] at hc
      cases hc
      decide
  have hopening : Text.dropStart? ['/', '*', '*'] (['/', '*', '*'] ++ comment.inner ++ ['*', '/']) =
      some (comment.inner ++ ['*', '/']) :=
    Text.dropStart?_eq_some_iff.2 (List.append_assoc ..)
  have hclosing : Text.dropEnd? ['*', '/'] (comment.inner ++ ['*', '/']) = some comment.inner :=
    Text.dropEnd?_eq_some_iff.2 rfl
  rw [inner?, written, String.toList_ofList, htrimmed.trimChars_eq, hopening, Option.map_some,
    hclosing, Option.getD_some]

theorem undecorate_written (comment : DecoratedComment) :
    undecorate comment.written = comment.body := by
  rw [undecorate, comment.inner?_written]
  simp only [comment.undecorateLines_inner, body]

end DecoratedComment

/-- A text without an opening mark is its own body. -/
theorem undecorate_of_not_prefix {raw : String}
    (h : ¬ ['/', '*', '*'] <+: Text.trimChars raw.toList) : undecorate raw = raw := by
  have hnone : inner? raw.toList = none := by
    rw [inner?, Option.map_eq_none_iff, Text.dropStart?, if_neg]
    rwa [List.isPrefixOf_iff_prefix]
  rw [undecorate, hnone]

/-- Taking the decoration off a comment leaves its lines, without the blank ones at both ends. So
the comment is read like these lines, unless they in turn start with an opening mark. -/
theorem DecoratedComment.parse_written (comment : DecoratedComment) :
    undecorate comment.written = comment.body ∧
      ∀ config, ¬ ['/', '*', '*'] <+: Text.trimChars comment.body.toList →
        parse config comment.written = parse config comment.body := by
  refine ⟨comment.undecorate_written, fun config h => ?_⟩
  rw [parse, parse, comment.undecorate_written, undecorate_of_not_prefix h]

/-- A line that looks like a decorated one, an empty line, one with marks in it and a blank one. -/
def starredComment : DecoratedComment where
  opening := .crlf
  lines :=
    [⟨⟨[' '], List.all_eq_true.1 (by decide), by simp⟩, ⟨"  * a".toList, by simp, by simp⟩, .lf⟩,
      ⟨⟨[], by simp, by simp⟩, ⟨[], by simp, by simp⟩, .crlf⟩,
      ⟨⟨['\t', '\r'], List.all_eq_true.1 (by decide), by simp⟩,
        ⟨"/* \r*/ ".toList, by simp, by simp⟩, .crlf⟩,
      ⟨⟨[' '], List.all_eq_true.1 (by decide), by simp⟩, ⟨['\t'], by simp, by simp⟩, .lf⟩]
  closing := ⟨[' '], List.all_eq_true.1 (by decide), by simp⟩

theorem DecoratedComment.parse_written_starred :
    starredComment.written =
        "/**\r\n *   * a\n* \r\n\t\r* /* \r*/ \r\n * \t\n */" ∧
      starredComment.body = "  * a\n\n/* \r*/ " ∧
      parse {} starredComment.written = parse {} starredComment.body := by
  have happly := (parse_written starredComment).2 {}
  have hplain : ¬ ['/', '*', '*'] <+: Text.trimChars starredComment.body.toList := by
    decide +kernel
  exact ⟨by decide +kernel, by decide +kernel, happly hplain⟩

end DocWeave.Comment
