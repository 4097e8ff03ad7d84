import Mathlib.Algebra.Order.Ring.Int
import Mathlib.Data.Char
import Mathlib.Data.List.Lex

/-!
# Version numbers

`sc::Version`: the comparison operators and `parse`. A `std::string` is the list of its characters.
-/

namespace SoulCoreKit.Core

structure Version where
  mMajor : Int := 0
  mMinor : Int := 0
  mPatch : Int := 0
  mPre : List Char := []
  mBuild : List Char := []
  deriving DecidableEq, Repr

namespace Version

variable (v other : Version)

/-- `operator<`. The strings are compared as strings. -/
def lt : Bool :=
  if v.mMajor ≠ other.mMajor then v.mMajor < other.mMajor
  else if v.mMinor ≠ other.mMinor then v.mMinor < other.mMinor
  else if v.mPatch ≠ other.mPatch then v.mPatch < other.mPatch
  else v.mPre < other.mPre

/-- `operator==`. The build is not looked at. -/
def eq : Bool :=
  v.mMajor = other.mMajor && v.mMinor = other.mMinor && v.mPatch = other.mPatch && v.mPre = other.mPre

/-- `operator<=`. -/
def le : Bool := v.lt other || v.eq other

/-- `operator>`. -/
def gt : Bool := !v.le other

/-- `operator>=`. -/
def ge : Bool := !v.lt other

/-- `operator!=`. -/
def ne : Bool := !v.eq other

/-! ### Parsing -/

inductive StoiError where
  | outOfRange
  deriving DecidableEq, Repr

/-- `std::stoi` of digits. -/
def stoi (digits : List Char) : Except StoiError Int :=
  let n := Nat.ofDigitChars 10 digits 0
  if n < 2 ^ 31 then .ok n else .error .outOfRange

/-- `(\d+)`, with what is left. -/
def digitGroup (text : List Char) : Option (List Char × List Char) :=
  let group := text.takeWhile Char.isDigit
  if group.isEmpty then none else some (group, text.dropWhile Char.isDigit)

/-- `\.`. -/
def dot : List Char → Option (List Char)
  | [] => none
  | c :: rest => if c = '.' then some rest else none

/-- `[a-zA-Z0-9.-]`. -/
def isLabelChar (c : Char) : Bool := c.isAlphanum || c = '.' || c = '-'

/-- `(?:-([a-zA-Z0-9.-]+))?`, with another mark for the build; the group is empty where it does not take
part. -/
def labelGroup (mark : Char) (text : List Char) : List Char × List Char :=
  match text with
  | [] => ([], [])
  | c :: rest =>
      let group := rest.takeWhile isLabelChar
      if c = mark ∧ ¬group.isEmpty then (group, rest.dropWhile isLabelChar) else ([], text)

/-- The five groups of `std::regex_match`. Each repetition has to go on as far as it can: a character that it
could take starts nothing that follows it in the pattern. -/
def regexMatch (versionStr : List Char) :
    Option (List Char × List Char × List Char × List Char × List Char) := do
  let (major, rest) ← digitGroup versionStr
  let (minor, rest) ← digitGroup (← dot rest)
  let (patch, rest) ← digitGroup (← dot rest)
  let (pre, rest) := labelGroup '-' rest
  let (build, rest) := labelGroup '+' rest
  if rest = [] then some (major, minor, patch, pre, build) else none

def parse (versionStr : List Char) : Except StoiError Version :=
  match regexMatch versionStr with
  | none => .ok {}
  | some (major, minor, patch, pre, build) => do
      let mMajor ← stoi major
      let mMinor ← stoi minor
      let mPatch ← stoi patch
      .ok { mMajor, mMinor, mPatch, mPre := pre, mBuild := build }

example : parse "1.2.3-alpha.1+build".toList =
    .ok { mMajor := 1, mMinor := 2, mPatch := 3, mPre := "alpha.1".toList, mBuild := "build".toList } := by
  decide

example : parse "1.2".toList = .ok {} := by decide

end Version

end SoulCoreKit.Core
