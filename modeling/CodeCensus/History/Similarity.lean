/-!
# Similarity of files

How much two files have in common, in percent. A file is read as a sequence of runs: its lines, where a
line of more than eighty bytes gives several runs and an empty one gives none. Carriage returns do not
count, and neither do blanks at the beginning of a line. Each run leaves a mark of 32 bits, and two files
are compared by their marks.

Of a large file only samples are kept: one that goes for low marks, and one that goes for high ones. A
file with few runs keeps all its marks in both samples, so the first one is enough.
-/

namespace CodeCensus.History

/-! ### Samples of marks -/

/-- The mark of a run. -/
abbrev Mark := UInt32

/-- The size at which a sample is full. -/
def sampleSize : Nat := 127

/-- The two orders in which samples are kept, the mark that is given up first in front. -/
inductive Side where
  | low
  | high
  deriving DecidableEq, Repr

namespace Side

/-- Whether the first of two marks is given up before the second. -/
def before : Side → Mark → Mark → Bool
  | low, a, b => b < a
  | high, a, b => a < b

/-- Put a mark at its place in a sample. -/
def insert (side : Side) (mark : Mark) : List Mark → List Mark
  | [] => [mark]
  | other :: rest =>
    if side.before mark other then mark :: other :: rest else other :: insert side mark rest

/-- Offer a mark to a sample. A full sample takes no mark. If the mark on offer would be worth more than
the one in front, that one is given up, and the next mark finds room. -/
def offer (side : Side) (mark : Mark) (sample : List Mark) : List Mark :=
  if sample.length < sampleSize then side.insert mark sample
  else
    match sample with
    | [] => []
    | first :: rest => if side.before first mark then rest else sample

/-- How many marks two samples have in common. -/
def common (side : Side) : List Mark → List Mark → Nat
  | [], _ => 0
  | _ :: _, [] => 0
  | a :: as, b :: bs =>
    if side.before a b then common side as (b :: bs)
    else if side.before b a then common side (a :: as) bs
    else common side as bs + 1
termination_by as bs => as.length + bs.length

/-- The share of common marks in two samples in percent. -/
def percent (side : Side) (a b : List Mark) : Nat :=
  100 * (side.common a b * 2) / (a.length + b.length)

end Side

/-! ### Runs -/

/-- The length at which a run ends. -/
def runLength : Nat := 80

/-- A run while it is read. -/
structure Run where
  mark : Mark := 0x8ABCDEF0
  length : Nat := 0

/-- Read one more byte of a run. -/
def Run.add (run : Run) (byte : UInt8) : Run :=
  ⟨run.mark * 31 + byte.toUInt32, run.length + 1⟩

/-- Whether a byte ends a line. -/
def endsLine (byte : UInt8) : Bool :=
  byte == 0x0A || byte == 0

/-- Whether a byte is passed over, at the beginning of a line or inside it. -/
def passedOver (beginning : Bool) (byte : UInt8) : Bool :=
  byte == 0x0D || beginning && (byte == 0x20 || byte == 0x09 || byte == 0x0B || byte == 0x0C)

/-- What is kept of a file for comparing it. -/
structure Fingerprint where
  low : List Mark := []
  high : List Mark := []
  /-- How many ends of lines were read. -/
  ends : Nat := 0
  deriving DecidableEq, Repr

namespace Fingerprint

/-- Finish a run. An empty one leaves no mark. -/
def finish (print : Fingerprint) (run : Run) : Fingerprint :=
  if run.length = 0 then print
  else
    { print with
      low := Side.low.offer run.mark print.low
      high := Side.high.offer run.mark print.high }

/-- Read the rest of a file. Only a line feed makes what follows the beginning of a line. When a run is
finished, the ends of lines that come next are passed over. -/
def read (beginning : Bool) (run : Run) (print : Fingerprint) (bytes : List UInt8) : Fingerprint :=
  match h : bytes.dropWhile (passedOver beginning) with
  | [] => print.finish run
  | byte :: rest =>
    have shorter : rest.length < bytes.length := by
      have := (List.dropWhile_suffix (l := bytes) (passedOver beginning)).length_le
      simp only [h, List.length_cons] at this
      omega
    have further : (rest.dropWhile endsLine).length < bytes.length := by
      have := (List.dropWhile_suffix (l := rest) endsLine).length_le
      omega
    if endsLine byte then
      let print := { print with ends := print.ends + 1 }
      if run.length = 0 then read (byte == 0x0A) {} print rest
      else read (byte == 0x0A) {} (print.finish run) (rest.dropWhile endsLine)
    else if (run.add byte).length < runLength then read false (run.add byte) print rest
    else read false {} (print.finish (run.add byte)) (rest.dropWhile endsLine)
termination_by bytes.length

/-- The fingerprint of a file. -/
def ofBody (body : ByteArray) : Fingerprint :=
  read true {} {} body.toList

/-- The share of marks that two files have in common, in percent. Of two files without marks it is all or
nothing. -/
def percent (a b : Fingerprint) : Nat :=
  if a.low.isEmpty && b.low.isEmpty then if a.ends = 0 ∧ b.ends = 0 then 100 else 0
  else if a.low.length < sampleSize then Side.low.percent a.low b.low
  else (Side.low.percent a.low b.low + Side.high.percent a.high b.high) / 2

end Fingerprint

/-! ### Similarity -/

/-- The size up to which a file may be compared with a file of any size. -/
def smallSize : Nat := 127

/-- Whether one of two sizes is more than eight times the other, and neither is small. -/
def farApart (a b : Nat) : Bool :=
  smallSize < a && smallSize < b && (8 * b < a || 8 * a < b)

/-- A file with its fingerprint, which serves every comparison. -/
structure Sketch where
  path : List UInt8
  body : ByteArray
  print : Fingerprint

/-- The sketch of a file. -/
def Sketch.of (path : List UInt8) (body : ByteArray) : Sketch :=
  ⟨path, body, .ofBody body⟩

/-- The similarity of an old file and a new one in percent. Files whose sizes are far apart are not
compared. -/
def Sketch.similarity? (old new : Sketch) : Option Nat :=
  if old.body.data = new.body.data then some 100
  else if farApart old.body.size new.body.size then none
  else some (old.print.percent new.print)

end CodeCensus.History
