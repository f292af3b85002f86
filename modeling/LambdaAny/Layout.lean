/-!
# Layout

Documents with possible line breaks, and how they are laid out in a given width.  A group is written
on one line if it fits there together with what follows it up to the next possible break.  Nothing
else decides a break: a text that is too wide is written anyway.

A new line is indented for what comes next on it.  That is not always the indentation of the break:
a break at the end of a nested document starts the line of the document behind.
-/

namespace LambdaAny

/-- A text with places where it may be broken. -/
inductive Doc where
  | text (s : String)
  /-- A space, or a line break followed by the indentation of what comes next. -/
  | line
  | append (first second : Doc)
  /-- Changes the indentation of the lines that start inside. -/
  | nest (k : Int) (doc : Doc)
  /-- Lines that are broken all or, if they fit, not at all. -/
  | group (doc : Doc)
deriving Repr

namespace Doc

instance : Append Doc := ⟨append⟩

inductive Mode where
  | flat
  | broken
deriving DecidableEq, Repr

/-- The text with every `line` as a space. -/
def flatText : Doc → String
  | text s => s
  | line => " "
  | append first second => first.flatText ++ second.flatText
  | nest _ doc => doc.flatText
  | group doc => doc.flatText

/-- Whether the document writes nothing. -/
def isEmpty : Doc → Bool
  | text s => s.isEmpty
  | line => false
  | append first second => first.isEmpty && second.isEmpty
  | nest _ doc => doc.isEmpty
  | group doc => doc.isEmpty

/-- Whether the document fits into `width` when it starts at `column`, up to the first break.  If no
break comes, `after` answers for what follows, given the column reached.  Groups are not decided
here: in broken mode the first `line` counts as a break even inside a group. -/
def fits (width : Nat) (mode : Mode) : Doc → (after : Nat → Bool) → (column : Nat) → Bool
  | text s, after, column => column + s.length ≤ width && after (column + s.length)
  | line, after, column =>
    match mode with
    | .flat => column + 1 ≤ width && after (column + 1)
    | .broken => true
  | append first second, after, column =>
    first.fits width mode (second.fits width mode after) column
  | nest _ doc, after, column => doc.fits width mode after column
  | group doc, after, column => doc.fits width mode after column

/-- An indentation moved by a number of columns, never past the left margin. -/
def indentBy (indent : Nat) (k : Int) : Nat := (indent + k).toNat

/-- What is written so far, and the column it ends in. -/
structure Page where
  text : String
  column : Nat

namespace Page

def blank : Page := ⟨"", 0⟩

/-- More text on the same line. -/
def write (page : Page) (s : String) : Page := ⟨page.text ++ s, page.column + s.length⟩

/-- A new line with an indentation. -/
def newline (page : Page) (indent : Nat) : Page :=
  ⟨(page.text ++ "\n") ++ String.ofList (List.replicate indent ' '), indent⟩

end Page

/-- Writes a document.  `next` is the indentation of what follows it, if anything does, and `after`
tells whether that fits from a given column up to its first break. -/
def layout (width : Nat) :
    Doc → (indent : Nat) → Mode → (next : Option Nat) → (after : Nat → Bool) → Page → Page
  | text s, _, _, _, _, page => page.write s
  | line, _, .flat, _, _, page => page.write " "
  | line, indent, .broken, next, _, page => page.newline (next.getD indent)
  | append first second, indent, mode, next, after, page =>
    let behind := if second.isEmpty then next else some indent
    let page := first.layout width indent mode behind (second.fits width .broken after) page
    second.layout width indent mode next after page
  | nest k doc, indent, mode, next, after, page =>
    doc.layout width (indentBy indent k) mode next after page
  | group doc, indent, .flat, next, after, page => doc.layout width indent .flat next after page
  | group doc, indent, .broken, next, after, page =>
    if doc.fits width .flat after page.column then doc.layout width indent .flat next after page
    else doc.layout width indent .broken next after page

/-- The document laid out from the left margin, with nothing behind it. -/
def render (width : Nat) (doc : Doc) : String :=
  (doc.layout width 0 .broken none (fun _ => true) .blank).text

end Doc
end LambdaAny
