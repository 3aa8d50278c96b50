import DocWeave.Comment.Decoration
import DocWeave.Comment.Token
import DocWeave.Config
import DocWeave.DocTree

/-!
# Reading comments

Each closing brace closes the nearest opener that is still open. A closed tag becomes a node; its
name decides which. A bare brace, an opener that is never closed, a closer that closes nothing and
everything opened more than `maxNesting` (64) deep stay text. The reader keeps the open openers as a
stack of frames.
-/

namespace DocWeave.Comment

/-- How many openers may be open at once. -/
def maxNesting : Nat := 64

/-- The nesting of parentheses after a character. -/
def parenDepth (depth : Nat) (c : Char) : Nat :=
  if c = '(' then depth + 1 else if c = ')' then depth - 1 else depth

/-- Cuts before the first blank outside parentheses. -/
def cutReference (depth : Nat) : List Char → List Char × List Char
  | [] => ([], [])
  | c :: cs =>
    if Text.isBlank c && depth == 0 then ([], c :: cs)
    else
      let (reference, rest) := cutReference (parenDepth depth c) cs
      (c :: reference, rest)

/-- The reference at the start of a link's content, and the label that follows it. -/
def splitReference : DocTree → String × DocTree
  | .text first :: rest =>
    let (reference, label) := cutReference 0 (Text.dropBlanks first.toList)
    let label := Text.dropBlanks label
    (String.ofList reference,
      if label.isEmpty then rest else .text (String.ofList label) :: rest)
  | content => ("", content)

/-- The node of a closed tag. -/
def tagNode (config : Config) (name : String) (content : DocTree) : DocNode :=
  if config.isLinkTag name then
    let (signature, label) := splitReference (DocTree.joinTexts content)
    .link signature label
  else if config.isIncludeTag name then .inclusion (Text.trim (DocTree.plainText content))
  else .container (DocTree.joinTexts content)

/-- An opener that is still open and the nodes read after it, the latest first. -/
structure Frame where
  opener : Opener
  latest : List DocNode := []

namespace Frame

/-- The nodes of a frame that a brace closes. -/
def close (config : Config) (frame : Frame) : List DocNode :=
  match frame.opener with
  | .brace =>
    .text Opener.brace.written :: (frame.latest.reverse ++ [.text Token.closing.written])
  | .tag name => [tagNode config name frame.latest.reverse]

/-- The nodes of a frame that is never closed. -/
def giveUp (frame : Frame) : List DocNode :=
  .text frame.opener.written :: frame.latest.reverse

end Frame

/-- The middle of a comment: the open frames, innermost first, the nodes outside of them, the
latest first, and how many openers were read as text because of the nesting limit and are still
open. -/
structure ReadState where
  frames : List Frame := []
  outer : List DocNode := []
  literalDepth : Nat := 0

namespace ReadState

/-- Adds nodes to the innermost open frame. -/
def push (nodes : List DocNode) (state : ReadState) : ReadState :=
  match state.frames with
  | [] => { state with outer := nodes.reverse ++ state.outer }
  | frame :: rest =>
    { state with frames := { frame with latest := nodes.reverse ++ frame.latest } :: rest }

def pushText (body : String) (state : ReadState) : ReadState :=
  state.push [.text body]

/-- Reads one token. -/
def step (config : Config) (state : ReadState) : Token → ReadState
  | .text body => state.pushText body
  | .opening opener =>
    if state.literalDepth > 0 || state.frames.length ≥ maxNesting then
      { state.pushText opener.written with literalDepth := state.literalDepth + 1 }
    else { state with frames := { opener } :: state.frames }
  | .closing =>
    if state.literalDepth > 0 then
      { state.pushText Token.closing.written with literalDepth := state.literalDepth - 1 }
    else match state.frames with
      | [] => state.pushText Token.closing.written
      | frame :: rest => { state with frames := rest }.push (frame.close config)

/-- The nodes when the text ends; frames that are still open give their nodes to the next outer
one. -/
def finish (state : ReadState) : List DocNode :=
  state.outer.reverse ++ state.frames.reverse.flatMap Frame.giveUp

end ReadState

/-- The document tree of the body of a comment. -/
def parseBody (config : Config) (body : String) : DocTree :=
  DocTree.joinTexts ((Token.tokenize body).foldl (ReadState.step config) {}).finish

/-- The document tree of a comment, with or without its decoration. -/
def parse (config : Config) (raw : String) : DocTree :=
  parseBody config (undecorate raw)

end DocWeave.Comment
