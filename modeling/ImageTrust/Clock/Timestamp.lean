import ImageTrust.Clock.Calendar

/-!
Timestamps of RFC 3339, such as `2026-10-16T10:00:00.5+05:30`. Any ASCII character but a digit may
stand between date and time. Digits beyond nanoseconds are read and dropped. The second 60 is
admitted only where a leap second can be, at the end of a month in UTC, and then stands for the last
nanosecond before it.
-/

namespace ImageTrust.Clock

/-- An instant and the offset from UTC, in seconds, that it was written with. -/
structure Timestamp where
  instant : Instant
  offset : Int
  deriving DecidableEq, Repr

/-- The value of exactly `n` decimal digits and what follows them. -/
def digits? (n : Nat) (cs : List Char) : Option (Nat × List Char) :=
  let ds := cs.take n
  if ds.length = n && ds.all Char.isDigit then
    some (ds.foldl (fun v d => v * 10 + (d.toNat - 48)) 0, cs.drop n)
  else none

/-- Drops a character that has to come next. -/
def expect? (c : Char) : List Char → Option (List Char)
  | d :: cs => if c = d then some cs else none
  | [] => none

/-- The nanoseconds that decimal digits behind the point stand for. -/
def fraction (ds : List Char) : Nat :=
  ((ds ++ List.replicate 9 '0').take 9).foldl (fun v d => v * 10 + (d.toNat - 48)) 0

/-- The fraction of a second, zero when there is none, and what follows it. -/
def fraction? : List Char → Option (Nat × List Char)
  | '.' :: cs =>
    let ds := cs.takeWhile Char.isDigit
    if ds.isEmpty then none else some (fraction ds, cs.dropWhile Char.isDigit)
  | cs => some (0, cs)

/-- The offset in seconds, which ends a timestamp. -/
def offset? : List Char → Option Int
  | ['Z'] | ['z'] => some 0
  | sign :: cs => do
    if sign != '+' && sign != '-' then none
    let (hour, cs) ← digits? 2 cs
    let cs ← expect? ':' cs
    let (minute, cs) ← digits? 2 cs
    if !cs.isEmpty || hour > 23 || minute > 59 then none
    let size : Int := (hour * 3600 + minute * 60 : Nat)
    some (if sign = '-' then -size else size)
  | [] => none

/-- Whether the last second of this minute is the last of a month in UTC. -/
def endsMonth (t : DateTime) (offset : Int) : Bool :=
  let second : Int := (t.hour * 3600 + t.minute * 60 + 59 : Nat) - offset
  second % 86400 = 86399
    && (let shift := second / 86400
        (shift = -1 && t.day = 1)
          || (shift = 0 && t.day = daysInMonth t.year t.month)
          || (shift = 1 && t.day + 1 = daysInMonth t.year t.month))

/-- Reads a timestamp that is the whole text. -/
def Timestamp.ofChars? (cs : List Char) : Option Timestamp := do
  let (year, cs) ← digits? 4 cs
  let cs ← expect? '-' cs
  let (month, cs) ← digits? 2 cs
  let cs ← expect? '-' cs
  let (day, cs) ← digits? 2 cs
  let cs ← match cs with
    | c :: cs => if c.toNat < 128 && !c.isDigit then some cs else none
    | [] => none
  let (hour, cs) ← digits? 2 cs
  let cs ← expect? ':' cs
  let (minute, cs) ← digits? 2 cs
  let cs ← expect? ':' cs
  let (second, cs) ← digits? 2 cs
  let (nanosecond, cs) ← fraction? cs
  let offset ← offset? cs
  let leap := second = 60
  let t : DateTime := ⟨year, month, day, hour, minute, if leap then 59 else second⟩
  if !t.isValid || (leap && !endsMonth t offset) then none
  let nanosecond := if leap then 999999999 else nanosecond
  some ⟨(t.seconds - offset) * nanosecondsPerSecond + nanosecond, offset⟩

/-- Reads a timestamp that is the whole text. -/
def Timestamp.ofText? (s : String) : Option Timestamp :=
  Timestamp.ofChars? s.toList

end ImageTrust.Clock
