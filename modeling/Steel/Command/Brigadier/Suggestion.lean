import Mathlib.Order.Nat
import Steel.Lib.MeasuredText
import Steel.Lib.PanicFree
import Steel.Utils.Types

/-!
# Command completion suggestions

`StringRange`, `Suggestion` and `Suggestions::merge` of `command/brigadier`. Texts are lists of
characters; ranges count UTF-16 code units, while the slices count UTF-8 bytes. An outcome `none` is
a panic.
-/

namespace Steel

open MeasuredText

/-- `char::len_utf16` -/
def lenUtf16 (character : Char) : ℕ := if character.toNat < 0x10000 then 1 else 2

/-- `char::len_utf8` -/
abbrev lenUtf8 (character : Char) : ℕ := character.utf8Size

/-- `text[start..stop]` -/
def sliceBytes (text : List Char) (start stop : ℕ) : Option (List Char) := do
  let (_, rest) ← splitAt lenUtf8 text start
  if stop < start then none
  else
    let (slice, _) ← splitAt lenUtf8 rest (stop - start)
    return slice

/-- A half-open range measured in UTF-16 code units. -/
structure StringRange where
  start : ℕ
  stop : ℕ
  le : start ≤ stop
  stop_le : stop ≤ usizeMax
deriving DecidableEq

namespace StringRange

def between (start stop : ℕ) : Option StringRange :=
  if h : start ≤ stop ∧ stop ≤ usizeMax then some ⟨start, stop, h.1, h.2⟩ else none

/-- The loop of `byte_index`, with the byte index and the UTF-16 index of the rest. -/
def byteIndexFrom (position : ℕ) : List Char → ℕ → ℕ → Option ℕ
  | [], byteIndex, utf16Index => if utf16Index = position then some byteIndex else none
  | character :: rest, byteIndex, utf16Index =>
    if utf16Index = position then some byteIndex
    else if position < utf16Index + lenUtf16 character then none
    else
      byteIndexFrom position rest (byteIndex + lenUtf8 character) (utf16Index + lenUtf16 character)

def byteIndex (input : List Char) (position : ℕ) : Option ℕ := byteIndexFrom position input 0 0

def byteRange (range : StringRange) (input : List Char) : Option (ℕ × ℕ) := do
  let start ← byteIndex input range.start
  let stop ← byteIndex input range.stop
  return (start, stop)

end StringRange

inductive SuggestionError where
  | invalidRange (range : StringRange) (inputLength : ℕ)
  | nonEncompassingRange (outer inner : StringRange)
deriving DecidableEq

structure Suggestion (Tooltip : Type) where
  range : StringRange
  text : List Char
  tooltip : Option Tooltip
  integer : Option ℤ
deriving DecidableEq

namespace Suggestion

variable {Tooltip : Type}

def checkedByteRange (input : List Char) (range : StringRange) :
    ExceptT SuggestionError Option (ℕ × ℕ) :=
  match range.byteRange input with
  | some bytes => some (.ok bytes)
  | none => some (.error (.invalidRange range (lengthBy lenUtf16 input)))

def apply (suggestion : Suggestion Tooltip) (input : List Char) :
    ExceptT SuggestionError Option (List Char) := do
  let (start, stop) ← checkedByteRange input suggestion.range
  let before ← ExceptT.lift (sliceBytes input 0 start)
  let after ← ExceptT.lift (sliceBytes input stop (lengthBy lenUtf8 input))
  return before ++ suggestion.text ++ after

def expand (suggestion : Suggestion Tooltip) (input : List Char) (range : StringRange) :
    ExceptT SuggestionError Option (Suggestion Tooltip) := do
  if suggestion.range.start < range.start ∨ range.stop < suggestion.range.stop then
    throw (.nonEncompassingRange range suggestion.range)
  else if range = suggestion.range then
    return suggestion
  else
    let start ← ExceptT.lift (StringRange.between range.start suggestion.range.start)
    let (prefixStart, prefixStop) ← checkedByteRange input start
    let stop ← ExceptT.lift (StringRange.between suggestion.range.stop range.stop)
    let (suffixStart, suffixStop) ← checkedByteRange input stop
    let before ← ExceptT.lift (sliceBytes input prefixStart prefixStop)
    let after ← ExceptT.lift (sliceBytes input suffixStart suffixStop)
    return ⟨range, before ++ suggestion.text ++ after, suggestion.tooltip, none⟩

/-- Integers compare by value, everything else by its lowercase text. -/
def compareIgnoreCase (toLowercase : List Char → List Char) (first second : Suggestion Tooltip) :
    Ordering :=
  match first.integer, second.integer with
  | some first, some second => compare first second
  | _, _ =>
    List.compareLex (compareOn Char.toNat) (toLowercase first.text) (toLowercase second.text)

end Suggestion

/--
The standard library's `str::to_lowercase` and `sort_by`. A sort permutes its list, but with a
comparison that is not an order on the list it may panic.
-/
structure SuggestionLibrary (Tooltip : Type) where
  toLowercase : List Char → List Char
  sortBy : (Suggestion Tooltip → Suggestion Tooltip → Ordering) → List (Suggestion Tooltip) →
    Option (List (Suggestion Tooltip))
  sortBy_perm : ∀ order suggestions sorted, sortBy order suggestions = some sorted →
    sorted.Perm suggestions
  sortBy_isSome : ∀ order suggestions,
    (∀ first ∈ suggestions, ∀ second ∈ suggestions,
      order first second = (order second first).swap) →
    (∀ first ∈ suggestions, ∀ second ∈ suggestions, ∀ third ∈ suggestions,
      order first second ≠ .gt → order second third ≠ .gt → order first third ≠ .gt) →
    ∃ sorted, sortBy order suggestions = some sorted

structure Suggestions (Tooltip : Type) where
  range : StringRange
  suggestions : List (Suggestion Tooltip)
deriving DecidableEq

namespace Suggestions

variable {Tooltip : Type}

def empty : Suggestions Tooltip := ⟨⟨0, 0, le_rfl, Nat.zero_le _⟩, []⟩

variable [DecidableEq Tooltip] (library : SuggestionLibrary Tooltip)

def pushExpanded (input : List Char) (range : StringRange) (expanded : List (Suggestion Tooltip))
    (suggestion : Suggestion Tooltip) :
    ExceptT SuggestionError Option (List (Suggestion Tooltip)) := do
  let suggestion ← suggestion.expand input range
  if suggestion ∈ expanded then return expanded else return expanded ++ [suggestion]

def create (input : List Char) (suggestions : List (Suggestion Tooltip)) :
    ExceptT SuggestionError Option (Suggestions Tooltip) :=
  if suggestions.isEmpty then return empty
  else do
    let start :=
      suggestions.foldl (fun start suggestion => min start suggestion.range.start) usizeMax
    let stop := suggestions.foldl (fun stop suggestion => max stop suggestion.range.stop) 0
    let range ← ExceptT.lift (StringRange.between start stop)
    let expanded ← suggestions.foldlM (pushExpanded input range) []
    let sorted ← ExceptT.lift
      (library.sortBy (Suggestion.compareIgnoreCase library.toLowercase) expanded)
    return ⟨range, sorted⟩

/-- Merge suggestion sets and widen them to one range; a single set is returned as it is. -/
def merge (input : List Char) : List (Suggestions Tooltip) →
    ExceptT SuggestionError Option (Suggestions Tooltip)
  | [] => return empty
  | [first] => return first
  | sets => create library input (sets.flatMap Suggestions.suggestions)

end Suggestions

end Steel
