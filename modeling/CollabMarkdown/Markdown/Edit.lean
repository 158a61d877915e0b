import CollabMarkdown.Markdown.OrderedList
import CollabMarkdown.Markdown.Pending

/-!
# The edit calls of the engine

The twelve calls of `markdown.h` that enqueue edits, and the versioning calls
around them.  A call returns its result code and the store it leaves.  Calls
that differ only in a marker or in delimiters are instances of one definition.

The document pointer is never NULL here; string arguments may be.
-/

namespace CollabMarkdown.Markdown

open CollabMarkdown.CString

variable {m : Type → Type} [Monad m] [MonadMalloc m]

/-! ## Validation -/

/-- The working text, or the code to return. -/
def validateVersionAndGetLen (s : Store) (version : UInt64) :
    m (Except MarkdownResult Text) := do
  if version ≠ s.version then
    return .error .outdatedVersion
  else
    match ← getWorkingText s with
    | none => return .error .invalidCursorPos
    | some working => return .ok working

/-! ## Insertion and deletion -/

/-- `markdown_insert`. -/
def markdownInsert (s : Store) (version : UInt64) (pos : Nat) (content : Option Text) :
    m (MarkdownResult × Store) := do
  match ← validateVersionAndGetLen s version with
  | .error r => return (r, s)
  | .ok working =>
      if working.length < pos then
        return (.invalidCursorPos, s)
      else
        enqueueInsert s pos content

/-- `markdown_delete`. -/
def markdownDelete (s : Store) (version : UInt64) (pos len : Nat) :
    m (MarkdownResult × Store) := do
  match ← validateVersionAndGetLen s version with
  | .error r => return (r, s)
  | .ok working =>
      let n := working.length
      if n < pos then
        return (.invalidCursorPos, s)
      else if len = 0 then
        return (.success, s)
      else
        enqueueDelete s pos (if n < sizeAdd pos len then n - pos else len)

/-! ## Lines and blocks -/

/-- `markdown_newline`. -/
def markdownNewline (s : Store) (version : UInt64) (pos : Nat) :
    m (MarkdownResult × Store) := do
  match ← validateVersionAndGetLen s version with
  | .error r => return (r, s)
  | .ok working =>
      let n := working.length
      if n < pos then
        return (.invalidCursorPos, s)
      else if pos < n ∧ byteAt working pos = space then
        let (r, s) ← markdownDelete s version pos 1
        if r ≠ .success then
          return (r, s)
        else
          markdownInsert s version pos (some [newline])
      else
        markdownInsert s version pos (some [newline])

/-- Start a new line before `pos` unless a line starts there; the last component
is the position after that line break. -/
def ensureBlockPrefixPosition (s : Store) (version : UInt64) (pos : Nat) :
    m (MarkdownResult × Store × Nat) := do
  match ← validateVersionAndGetLen s version with
  | .error r => return (r, s, pos)
  | .ok working =>
      if working.length < pos then
        return (.invalidCursorPos, s, pos)
      else if 0 < pos ∧ byteAt working (pos - 1) ≠ newline then
        let (r, s) ← markdownInsert s version pos (some [newline])
        if r ≠ .success then
          return (r, s, pos)
        else
          return (.success, s, pos + 1)
      else
        return (.success, s, pos)

/-- The common body of the block commands: a marker at the start of a line. -/
def insertBlockMarker (s : Store) (version : UInt64) (pos : Nat) (marker : Text) :
    m (MarkdownResult × Store) := do
  let (r, s, pos) ← ensureBlockPrefixPosition s version pos
  if r ≠ .success then
    return (r, s)
  else
    markdownInsert s version pos (some marker)

/-- The marker of a heading. -/
def headingTag (level : Nat) : Text :=
  List.replicate level 35 ++ [space]

/-- `markdown_heading`. -/
def markdownHeading (s : Store) (version : UInt64) (level pos : Nat) :
    m (MarkdownResult × Store) := do
  if level < 1 ∨ 3 < level then
    return (.invalidCursorPos, s)
  else
    insertBlockMarker s version pos (headingTag level)

/-- `markdown_blockquote`. -/
def markdownBlockquote (s : Store) (version : UInt64) (pos : Nat) :
    m (MarkdownResult × Store) :=
  insertBlockMarker s version pos (ascii "> ")

/-- The only block command that drops a space at the cursor. -/
def markdownOrderedList (s : Store) (version : UInt64) (pos : Nat) :
    m (MarkdownResult × Store) := do
  match ← validateVersionAndGetLen s version with
  | .error r => return (r, s)
  | .ok working =>
      let n := working.length
      if n < pos then
        return (.invalidCursorPos, s)
      else if pos < n ∧ byteAt working pos = space then
        let (r, s) ← markdownDelete s version pos 1
        if r ≠ .success then
          return (r, s)
        else
          insertBlockMarker s version pos (ascii "1. ")
      else
        insertBlockMarker s version pos (ascii "1. ")

/-- `markdown_unordered_list`. -/
def markdownUnorderedList (s : Store) (version : UInt64) (pos : Nat) :
    m (MarkdownResult × Store) :=
  insertBlockMarker s version pos (ascii "- ")

/-- `markdown_horizontal_rule`. -/
def markdownHorizontalRule (s : Store) (version : UInt64) (pos : Nat) :
    m (MarkdownResult × Store) :=
  insertBlockMarker s version pos (ascii "---\n")

/-! ## Ranges -/

/-- The common body of the range commands.  Both ends are committed positions;
the closing delimiter, built after both were transformed, is enqueued first. -/
def formatRange (s : Store) (version : UInt64) (start stop : Nat) (opening : Text)
    (closing : m (Option Text)) : m (MarkdownResult × Store) := do
  if version ≠ s.version then
    return (.outdatedVersion, s)
  else
    match ← getCommittedText s with
    | none => return (.invalidCursorPos, s)
    | some committed =>
        if stop ≤ start ∨ committed.length < stop then
          return (.invalidCursorPos, s)
        else
          match transformPositionAfterPendingOps s start with
          | .error r => return (r, s)
          | .ok adjustedStart =>
              match transformPositionAfterPendingOps s stop with
              | .error r => return (r, s)
              | .ok adjustedEnd =>
                  match ← closing with
                  | none => return (.invalidCursorPos, s)
                  | some suffix =>
                      let (r, s) ← markdownInsert s version adjustedEnd (some suffix)
                      if r ≠ .success then
                        return (r, s)
                      else
                        markdownInsert s version adjustedStart (some opening)

/-- `markdown_bold`. -/
def markdownBold (s : Store) (version : UInt64) (start stop : Nat) :
    m (MarkdownResult × Store) :=
  formatRange s version start stop (ascii "**") (pure (some (ascii "**")))

/-- `markdown_italic`. -/
def markdownItalic (s : Store) (version : UInt64) (start stop : Nat) :
    m (MarkdownResult × Store) :=
  formatRange s version start stop (ascii "*") (pure (some (ascii "*")))

/-- `markdown_code`. -/
def markdownCode (s : Store) (version : UInt64) (start stop : Nat) :
    m (MarkdownResult × Store) :=
  formatRange s version start stop (ascii "`") (pure (some (ascii "`")))

/-- The closing delimiter of a link, printed into a fresh buffer. -/
def linkSuffix (url : Text) : m (Option Text) := do
  let suffixLen := url.length + 4
  if ← malloc (suffixLen + 1) then
    return some (snprintf (suffixLen + 1) (ascii "](" ++ url ++ ascii ")"))
  else
    return none

/-- `markdown_link`. -/
def markdownLink (s : Store) (version : UInt64) (start stop : Nat) (url : Option Text) :
    m (MarkdownResult × Store) :=
  match url with
  | none => return (.invalidCursorPos, s)
  | some url => formatRange s version start stop (ascii "[") (linkSuffix url)

/-! ## The edit calls as data -/

/-- One edit call with its arguments. -/
inductive Edit where
  | insert (pos : Nat) (content : Option Text)
  | delete (pos len : Nat)
  | newline (pos : Nat)
  | heading (level pos : Nat)
  | bold (start stop : Nat)
  | italic (start stop : Nat)
  | blockquote (pos : Nat)
  | orderedList (pos : Nat)
  | unorderedList (pos : Nat)
  | code (start stop : Nat)
  | horizontalRule (pos : Nat)
  | link (start stop : Nat) (url : Option Text)
  deriving DecidableEq, Repr

/-- The call of the engine for an edit. -/
def Edit.run (s : Store) (version : UInt64) : Edit → m (MarkdownResult × Store)
  | .insert pos content => markdownInsert s version pos content
  | .delete pos len => markdownDelete s version pos len
  | .newline pos => markdownNewline s version pos
  | .heading level pos => markdownHeading s version level pos
  | .bold start stop => markdownBold s version start stop
  | .italic start stop => markdownItalic s version start stop
  | .blockquote pos => markdownBlockquote s version pos
  | .orderedList pos => markdownOrderedList s version pos
  | .unorderedList pos => markdownUnorderedList s version pos
  | .code start stop => markdownCode s version start stop
  | .horizontalRule pos => markdownHorizontalRule s version pos
  | .link start stop url => markdownLink s version start stop url

/-! ## Documents and versions -/

/-- A new document at the address the allocator returned. -/
def markdownInit (addr : DocAddr) : m (Option Document) := do
  if ← malloc sizeofDocument then
    if ← malloc sizeofChunk then
      match ← strdup (some []) with
      | none => return none
      | some data =>
          return some { addr, committedHead := some ⟨data, 0⟩, currentVersion := 0 }
    else
      return none
  else
    return none

/-- `markdown_flatten`. -/
def markdownFlatten (s : Store) : m (Option Text) :=
  getCommittedText s

/-- The new committed text takes the place of the old one, in a new chunk if the
document has none. -/
def commitText (doc : Document) (text : Text) : m (Option Document) := do
  match doc.committedHead with
  | some _ => return some { doc with committedHead := some ⟨text, text.length⟩ }
  | none =>
      if ← malloc sizeofChunk then
        return some { doc with committedHead := some ⟨text, text.length⟩ }
      else
        return none

/-- `markdown_increment_version`. -/
def markdownIncrementVersion (s : Store) : m Store := do
  match ← getWorkingText s with
  | none => return s
  | some newText =>
      match ← renumberOrderedLists newText with
      | none => return s
      | some text =>
          match ← commitText s.doc text with
          | none => return s
          | some doc =>
              return { doc := { doc with currentVersion := doc.currentVersion + 1 }
                       opLists := clearOps s.opLists doc.addr }

end CollabMarkdown.Markdown
