import CodeCensus.Calendar.Date

/-!
# Instants

Points in time, counted in seconds from the beginning of 1 January 1970 in universal time. Only
instants of the years -262143 to 262142 are representable.

An instant may lie in a leap second behind any second, but clocks show leap seconds at the ends of minutes
only. What they show is a moment.
-/

namespace CodeCensus.Calendar

/-- The number of seconds in a day. -/
def daySeconds : Int := 86400

/-- The day in which a second lies. -/
def dayOfSecond (seconds : Int) : Int :=
  seconds / daySeconds

/-- The first representable second, and the last one. -/
def firstSecond : Int := -8334601228800

@[inherit_doc firstSecond]
def lastSecond : Int := 8210266876799

/-- Whether a second is representable. -/
def representable (seconds : Int) : Bool :=
  firstSecond ≤ seconds && seconds ≤ lastSecond

/-- The date of a second. -/
def dateText (seconds : Int) : String :=
  String.ofList (dateOfDay (dayOfSecond seconds)).text

/-- A point in time. Nanoseconds from a thousand million on lie in a leap second. -/
structure Instant where
  seconds : Int
  nanos : Nat := 0
  deriving DecidableEq, Repr

namespace Instant

/-- The number of nanoseconds in a second. -/
def second : Nat := 1000000000

/-- A second stands for its beginning. -/
instance : Coe Int Instant := ⟨fun seconds => ⟨seconds, 0⟩⟩

/-- The same time of day some days earlier. -/
def minusDays (instant : Instant) (days : Nat) : Instant :=
  { instant with seconds := instant.seconds - days * daySeconds }

/-- An instant in nanoseconds. -/
def total (instant : Instant) : Int :=
  instant.seconds * second + instant.nanos

/-- Whether a second does not begin before an instant. -/
def isReachedBy (instant : Instant) (seconds : Int) : Bool :=
  instant.total ≤ total seconds

/-- A fraction of a second, in as few groups of three digits as are needed. -/
def fractionText (nanos : Nat) : List Char :=
  if nanos = 0 then []
  else if nanos % 1000000 = 0 then '.' :: padded 3 (nanos / 1000000)
  else if nanos % 1000 = 0 then '.' :: padded 6 (nanos / 1000)
  else '.' :: padded 9 nanos

/-- An instant as date and time of day in universal time. -/
def text (instant : Instant) : List Char :=
  let ofDay := (instant.seconds % daySeconds).toNat
  let leap := if second ≤ instant.nanos then 1 else 0
  (dateOfDay (dayOfSecond instant.seconds)).text ++ 'T' :: padded 2 (ofDay / 3600) ++
    ':' :: padded 2 (ofDay / 60 % 60) ++ ':' :: padded 2 (ofDay % 60 + leap) ++
    fractionText (instant.nanos - leap * second) ++ ['Z']

end Instant

/-! ### Moments -/

/-- An instant that a clock shows. Leap seconds are put in at the ends of minutes and nowhere else. -/
structure Moment extends Instant where
  proper : nanos < Instant.second ∨ seconds % 60 = 59 ∧ nanos < 2 * Instant.second
  deriving DecidableEq, Repr

namespace Moment

instance : Coe Moment Instant := ⟨toInstant⟩

/-- The beginning of a second. -/
def ofSecond (seconds : Int) : Moment where
  seconds
  proper := .inl (by decide)

instance : Coe Int Moment := ⟨ofSecond⟩

/-- The moment at an instant, if a clock can show it. -/
def of? (instant : Instant) : Option Moment :=
  if proper : instant.nanos < Instant.second ∨
      instant.seconds % 60 = 59 ∧ instant.nanos < 2 * Instant.second then
    some ⟨instant, proper⟩
  else none

/-- The instant of a moment is one that a clock can show, so the moment is had back from it. -/
@[simp] theorem of?_toInstant (moment : Moment) : of? moment = some moment :=
  dif_pos moment.proper

end Moment

end CodeCensus.Calendar
