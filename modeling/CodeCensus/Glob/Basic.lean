/-!
# Globs

A glob accepts some runs of bytes. It is put together from single bytes of a set and runs of bytes of a
set by sequence and choice. There is no repetition but the run, so whether a glob accepts a path is
found by recursion on the glob: each part is given what has to accept the rest.
-/

namespace CodeCensus

/-! ### Sets of bytes -/

/-- The bytes in some ranges, or the bytes outside all of them. -/
structure ByteSet where
  ranges : List (UInt8 × UInt8)
  negated : Bool := false
  deriving DecidableEq, Repr

namespace ByteSet

/-- Whether a byte is in a set. -/
def has (set : ByteSet) (byte : UInt8) : Bool :=
  set.ranges.any (fun (low, high) => low ≤ byte && byte ≤ high) != set.negated

/-- The set of one byte. -/
def single (byte : UInt8) : ByteSet :=
  ⟨[(byte, byte)], false⟩

/-- Every byte. -/
def all : ByteSet :=
  ⟨[], true⟩

end ByteSet

/-! ### Globs and what they accept -/

/-- A description of runs of bytes. -/
inductive Glob where
  /-- The empty run. -/
  | empty
  /-- One byte of a set. -/
  | one (set : ByteSet)
  /-- Any number of bytes of a set. -/
  | run (set : ByteSet)
  /-- One glob after the other. -/
  | both (first second : Glob)
  /-- One glob or the other. -/
  | either (first second : Glob)
  deriving DecidableEq, Repr

namespace Glob

/-- Whether some bytes of a set can be taken away so that the rest is accepted. -/
def runThen (set : ByteSet) (rest : List UInt8 → Bool) : List UInt8 → Bool
  | [] => rest []
  | byte :: bytes => rest (byte :: bytes) || (set.has byte && runThen set rest bytes)

/-- Whether bytes that the glob accepts can be taken away so that the rest is accepted. -/
def acceptsThen : Glob → (rest : List UInt8 → Bool) → List UInt8 → Bool
  | empty, rest, bytes => rest bytes
  | one _, _, [] => false
  | one set, rest, byte :: bytes => set.has byte && rest bytes
  | run set, rest, bytes => runThen set rest bytes
  | both first second, rest, bytes => first.acceptsThen (second.acceptsThen rest) bytes
  | either first second, rest, bytes => first.acceptsThen rest bytes || second.acceptsThen rest bytes

/-- Whether a glob accepts all of some bytes. -/
def accepts (glob : Glob) (bytes : List UInt8) : Bool :=
  glob.acceptsThen List.isEmpty bytes

/-! ### Putting globs together -/

/-- One glob after the other, where the empty glob adds nothing. -/
def andThen (first second : Glob) : Glob :=
  if first = empty then second else if second = empty then first else both first second

/-- Globs one after the other. -/
def sequence (globs : List Glob) : Glob :=
  globs.foldr andThen empty

/-- Any one of some globs; the empty glob if there are none. -/
def anyOf : List Glob → Glob
  | [] => empty
  | [glob] => glob
  | glob :: globs => either glob (anyOf globs)

/-- The bytes of a character. -/
def character (c : Char) : Glob :=
  sequence ((String.utf8EncodeChar c).map fun byte => one (.single byte))

/-- The byte between the names of a path. -/
def separator : Glob :=
  character '/'

/-- Every byte but the separator. -/
def insideName : ByteSet :=
  ⟨[(0x2F, 0x2F)], true⟩

end Glob

end CodeCensus
