import Mathlib.Data.List.Basic

/-!
# Canonical times

A record's time is written by `toISOString` and read back only in that form.  `isoTime` is the test:
the fixed shape of digits and separators, and a date and a time of day that exist.

An `Instant` is a date as it is compared and moved in memory.
-/

set_option autoImplicit false

namespace Script

/-- `\d` -/
def digit (c : Char) : Bool := '0' ≤ c && c ≤ '9'

/-- Each `d` of the shape stands for a digit, any other character for itself. -/
def shaped : List Char → List Char → Bool
  | 'd' :: shape, c :: chars => digit c && shaped shape chars
  | s :: shape, c :: chars => s == c && shaped shape chars
  | [], [] => true
  | _, _ => false

/-- The number that digits spell. -/
def decimal (chars : List Char) : Nat := chars.foldl (fun value c ↦ 10 * value + (c.toNat - 48)) 0

def leapYear (year : Nat) : Bool := year % 4 == 0 && (year % 100 != 0 || year % 400 == 0)

def daysIn (year : Nat) : Nat → Nat
  | 2 => if leapYear year then 29 else 28
  | 4 | 6 | 9 | 11 => 30
  | _ => 31

/-- `new Date(value).toISOString() === value`, for years of four digits. -/
def isoTime (value : String) : Bool :=
  let chars := value.toList
  let field (start length : Nat) := decimal ((chars.drop start).take length)
  shaped "dddd-dd-ddTdd:dd:dd.dddZ".toList chars
    && (1 ≤ field 5 2 && field 5 2 ≤ 12)
    && (1 ≤ field 8 2 && field 8 2 ≤ daysIn (field 0 4) (field 5 2))
    && field 11 2 ≤ 23 && field 14 2 ≤ 59 && field 17 2 ≤ 59

/-! ## Dates -/

/-- A `Date`: its time in milliseconds, or none when it is invalid. -/
abbrev Instant := Option Int

/-- `left <= right`, which is false of an invalid date. -/
def Instant.le : Instant → Instant → Bool
  | some left, some right => left ≤ right
  | _, _ => false

/-- `left < right`, which is false of an invalid date. -/
def Instant.lt : Instant → Instant → Bool
  | some left, some right => left < right
  | _, _ => false

/-- The sign of `left.getTime() - right.getTime()`, in which `NaN` counts as equal. -/
def Instant.order : Instant → Instant → Ordering
  | some left, some right => compare left right
  | _, _ => .eq

/-- `new Date(at.getTime() + ms)`, which is invalid beyond the range of dates. -/
def Instant.plus («at» : Instant) (ms : Int) : Instant :=
  «at».bind fun time ↦ if (time + ms).natAbs ≤ 8640000000000000 then some (time + ms) else none

example : isoTime "2024-02-29T23:59:59.000Z" = true := by decide
example : isoTime "2023-02-29T23:59:59.000Z" = false := by decide

end Script
