/-!
# Spans

A half-open range of byte offsets into the UTF-8 form of a text.  Nothing forces `start ≤ stop`, nor
the ends onto character boundaries: that the readers produce only such spans is a property of
theirs.
-/

namespace LambdaAny

structure Span where
  start : Nat
  stop : Nat
deriving DecidableEq, Repr, Inhabited

namespace Span

/-- The empty span at an offset. -/
def point (offset : Nat) : Span := ⟨offset, offset⟩

/-- The same range in a text with `n` more bytes in front. -/
def shift (n : Nat) (span : Span) : Span := ⟨span.start + n, span.stop + n⟩

def text (span : Span) : String := s!"{span.start}-{span.stop}"

/-- The first `n` bytes of a text and the rest of it, if they are whole characters of the text. -/
def splitBytes? : Nat → List Char → Option (List Char × List Char)
  | 0, cs => some ([], cs)
  | _ + 1, [] => none
  | n + 1, c :: cs =>
    if c.utf8Size ≤ n + 1 then
      (splitBytes? (n + 1 - c.utf8Size) cs).map fun (front, rest) => (c :: front, rest)
    else none

/-- The piece of a text at the span.  There is none if the ends are in the wrong order, past the end
of the text or inside a character. -/
def slice? (span : Span) (source : String) : Option String :=
  if span.start ≤ span.stop then do
    let (_, rest) ← splitBytes? span.start source.toList
    let (piece, _) ← splitBytes? (span.stop - span.start) rest
    return String.ofList piece
  else none

end Span
end LambdaAny
