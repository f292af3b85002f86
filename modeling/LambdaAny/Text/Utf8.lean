/-!
# UTF-8

Decodes bytes strictly: no surrogates, no overlong forms, nothing above U+10FFFF.  Bytes that belong
to no character are cut off in the longest pieces that could have started one, so a reader that does
not insist can put one mark in the place of each piece.
-/

namespace LambdaAny
namespace Text
namespace Utf8

/-- What a first byte announces: how many bytes follow, the range of the first of these, and the
bits the first byte itself contributes. -/
structure Lead where
  following : Nat
  low : Nat
  high : Nat
  bits : Nat

def lead? (byte : Nat) : Option Lead :=
  if byte < 0x80 then some ⟨0, 0x80, 0xbf, byte⟩
  else if byte < 0xc2 then none
  else if byte < 0xe0 then some ⟨1, 0x80, 0xbf, byte - 0xc0⟩
  else if byte = 0xe0 then some ⟨2, 0xa0, 0xbf, 0⟩
  else if byte = 0xed then some ⟨2, 0x80, 0x9f, 0xd⟩
  else if byte < 0xf0 then some ⟨2, 0x80, 0xbf, byte - 0xe0⟩
  else if byte = 0xf0 then some ⟨3, 0x90, 0xbf, 0⟩
  else if byte < 0xf4 then some ⟨3, 0x80, 0xbf, byte - 0xf0⟩
  else if byte = 0xf4 then some ⟨3, 0x80, 0x8f, 4⟩
  else none

/-- Reads the following bytes of a character; `none` at the first that cannot be one. -/
def finish : (following low high bits : Nat) → List UInt8 → Option Nat × List UInt8
  | 0, _, _, bits, bytes => (some bits, bytes)
  | _ + 1, _, _, _, [] => (none, [])
  | following + 1, low, high, bits, byte :: bytes =>
    if low ≤ byte.toNat ∧ byte.toNat ≤ high then
      finish following 0x80 0xbf (bits * 0x40 + (byte.toNat - 0x80)) bytes
    else (none, byte :: bytes)

theorem length_finish_le (following low high bits : Nat) (bytes : List UInt8) :
    (finish following low high bits bytes).2.length ≤ bytes.length := by
  fun_induction finish following low high bits bytes with
  | case1 => simp
  | case2 => simp
  | case3 _ _ _ _ byte bytes _ ih => simp only [List.length_cons]; omega
  | case4 => simp

/-- The first character of some bytes, or `none` for a piece that is none, and the bytes behind. -/
def first (byte : UInt8) (bytes : List UInt8) : Option Char × List UInt8 :=
  match lead? byte.toNat with
  | none => (none, bytes)
  | some lead =>
    let (n, rest) := finish lead.following lead.low lead.high lead.bits bytes
    (n.map Char.ofNat, rest)

theorem length_first_le (byte : UInt8) (bytes : List UInt8) :
    (first byte bytes).2.length ≤ bytes.length := by
  unfold first
  split
  · simp
  · exact length_finish_le _ _ _ _ _

/-- The characters of some bytes, with `none` for each piece that is not one. -/
def pieces : List UInt8 → List (Option Char)
  | [] => []
  | byte :: bytes => (first byte bytes).1 :: pieces (first byte bytes).2
termination_by bytes => bytes.length
decreasing_by
  have := length_first_le byte bytes
  simp only [List.length_cons]
  omega

/-- The text that the bytes encode, if they encode one. -/
def decode? (bytes : List UInt8) : Option String :=
  ((pieces bytes).mapM id).map String.ofList

/-- The text of the bytes with a replacement character for each piece that is not a character. -/
def decodeLossy (bytes : List UInt8) : String :=
  String.ofList ((pieces bytes).map (·.getD '\ufffd'))

/-- The bytes of a text. -/
def encode (s : String) : List UInt8 := s.toUTF8.data.toList

end Utf8
end Text
end LambdaAny
