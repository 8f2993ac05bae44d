/-!
# Bytes as text

Bytes are text if they are valid UTF-8. Where bytes have to be shown and are not, every longest run
of bytes that begins a character without completing one is shown as one U+FFFD, and so is every byte
that begins no character.
-/

namespace CodeCensus.Text

/-- The text that some bytes encode, if they are valid UTF-8. -/
def ofUtf8? (bytes : ByteArray) : Option String :=
  String.fromUTF8? bytes

/-- The text that the bytes of a name encode, if they are valid UTF-8. -/
def ofBytes? (bytes : List UInt8) : Option String :=
  ofUtf8? ⟨bytes.toArray⟩

/-! ### Showing bytes that may be no text -/

/-- The character shown in place of bytes that encode none. -/
def replacement : Char := '\uFFFD'

/-- The shape of the character that a first byte begins: the number of further bytes, the bounds of
the second byte, and what the first byte contributes to the number of the character. The bounds
exclude over-long forms, surrogates and numbers beyond U+10FFFF. -/
def lead? (first : UInt8) : Option (Nat × UInt8 × UInt8 × Nat) :=
  let n := first.toNat
  if n < 0x80 then some (0, 0x80, 0xBF, n)
  else if 0xC2 ≤ n ∧ n ≤ 0xDF then some (1, 0x80, 0xBF, n - 0xC0)
  else if n = 0xE0 then some (2, 0xA0, 0xBF, n - 0xE0)
  else if n = 0xED then some (2, 0x80, 0x9F, n - 0xE0)
  else if 0xE1 ≤ n ∧ n ≤ 0xEF then some (2, 0x80, 0xBF, n - 0xE0)
  else if n = 0xF0 then some (3, 0x90, 0xBF, n - 0xF0)
  else if 0xF1 ≤ n ∧ n ≤ 0xF3 then some (3, 0x80, 0xBF, n - 0xF0)
  else if n = 0xF4 then some (3, 0x80, 0x8F, n - 0xF0)
  else none

/-- A character that is being read: how many bytes it still needs, the bounds of the next one, and
its number so far. -/
structure Partial where
  needed : Nat
  low : UInt8
  high : UInt8
  value : Nat

/-- What has been read so far, in reverse, and the character that is being read. -/
structure Decoding where
  done : List Char := []
  open? : Option Partial := none

/-- Read a byte that stands where a character may begin. -/
def Decoding.begin (done : List Char) (byte : UInt8) : Decoding :=
  match lead? byte with
  | none => ⟨replacement :: done, none⟩
  | some (0, _, _, value) => ⟨Char.ofNat value :: done, none⟩
  | some (needed, low, high, value) => ⟨done, some ⟨needed, low, high, value⟩⟩

/-- Read the next byte. -/
def Decoding.next (decoding : Decoding) (byte : UInt8) : Decoding :=
  match decoding.open? with
  | none => .begin decoding.done byte
  | some c =>
    if c.low ≤ byte ∧ byte ≤ c.high then
      let value := c.value * 64 + (byte.toNat - 0x80)
      if c.needed ≤ 1 then ⟨Char.ofNat value :: decoding.done, none⟩
      else ⟨decoding.done, some ⟨c.needed - 1, 0x80, 0xBF, value⟩⟩
    else .begin (replacement :: decoding.done) byte

/-- The text of all bytes read, with a last unfinished character replaced. -/
def Decoding.finish (decoding : Decoding) : String :=
  String.ofList
    (match decoding.open? with
      | none => decoding.done
      | some _ => replacement :: decoding.done).reverse

/-- The text of some bytes, with what is not valid UTF-8 replaced. -/
def lossy (bytes : List UInt8) : String :=
  (bytes.foldl Decoding.next {}).finish

end CodeCensus.Text
