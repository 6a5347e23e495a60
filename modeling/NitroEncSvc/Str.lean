import Mathlib.Data.List.Infix
import Mathlib.Data.List.DropRight
import Mathlib.Data.List.TakeWhile
import Mathlib.Data.List.Basic

namespace NitroEncSvc.Str

/-!
# Rust string slices over character lists

The service handles `&str` through a few methods of the Rust standard
library.  Each is modelled on the character list of a `String`, following its
documented behaviour: a string pattern matches a run of characters and a
`char` pattern one character.  The list functions underneath are generic, so
that their lemmas are plain facts about lists.
-/

section Lists

variable {α : Type} [DecidableEq α]

/--
Cut a list at the first separator: the piece before it, and what follows the
separator if there is one.
-/
def breakAt (sep : α) : List α → List α × Option (List α)
  | [] =>
      ([], none)
  | head :: rest =>
      if head = sep then
        ([], some rest)
      else
        let (piece, after) := breakAt sep rest
        (head :: piece, after)

/-- A list without the separator is one piece with nothing after it. -/
theorem breakAt_of_not_mem
    {sep : α}
    {piece : List α}
    (absent : sep ∉ piece) :
    breakAt sep piece = (piece, none) := by
  induction piece with
  | nil =>
      rfl
  | cons head rest inductionHypothesis =>
      have headNe : head ≠ sep := fun same => absent (same ▸ List.mem_cons_self)
      have restAbsent : sep ∉ rest := fun member => absent (List.mem_cons_of_mem _ member)
      simp [breakAt, headNe, inductionHypothesis restAbsent]

/-- A separator after a separator-free piece is where the list is cut. -/
theorem breakAt_append_cons
    {sep : α}
    {piece : List α}
    (absent : sep ∉ piece)
    (rest : List α) :
    breakAt sep (piece ++ sep :: rest) = (piece, some rest) := by
  induction piece with
  | nil =>
      simp [breakAt]
  | cons head tail inductionHypothesis =>
      have headNe : head ≠ sep := fun same => absent (same ▸ List.mem_cons_self)
      have tailAbsent : sep ∉ tail := fun member => absent (List.mem_cons_of_mem _ member)
      simp [breakAt, headNe, inductionHypothesis tailAbsent]

/-- Cutting at a separator loses nothing: the list is the piece, the separator and the rest. -/
theorem eq_of_breakAt_eq_some
    {sep : α}
    {chars piece rest : List α}
    (cut : breakAt sep chars = (piece, some rest)) :
    chars = piece ++ sep :: rest ∧ sep ∉ piece := by
  induction chars generalizing piece with
  | nil =>
      simp [breakAt] at cut
  | cons head tail inductionHypothesis =>
      by_cases headSep : head = sep
      · simp only [breakAt, headSep, ↓reduceIte, Prod.mk.injEq, Option.some.injEq] at cut
        obtain ⟨rfl, rfl⟩ := cut
        subst headSep
        simp
      · rcases tailCut : breakAt sep tail with ⟨tailPiece, tailAfter⟩
        simp only [breakAt, headSep, ↓reduceIte, tailCut, Prod.mk.injEq] at cut
        obtain ⟨rfl, rfl⟩ := cut
        obtain ⟨tailShape, tailAbsent⟩ := inductionHypothesis tailCut
        refine ⟨by rw [tailShape]; rfl, ?_⟩
        simp only [List.mem_cons, not_or]
        exact ⟨Ne.symm headSep, tailAbsent⟩

/-- A list with no separator after the cut is exactly the piece, separator-free. -/
theorem eq_of_breakAt_eq_none
    {sep : α}
    {chars piece : List α}
    (cut : breakAt sep chars = (piece, none)) :
    chars = piece ∧ sep ∉ piece := by
  induction chars generalizing piece with
  | nil =>
      simp only [breakAt, Prod.mk.injEq] at cut
      simp [← cut.1]
  | cons head tail inductionHypothesis =>
      by_cases headSep : head = sep
      · simp [breakAt, headSep] at cut
      · rcases tailCut : breakAt sep tail with ⟨tailPiece, tailAfter⟩
        simp only [breakAt, headSep, ↓reduceIte, tailCut, Prod.mk.injEq] at cut
        obtain ⟨rfl, rfl⟩ := cut
        obtain ⟨rfl, tailAbsent⟩ := inductionHypothesis tailCut
        refine ⟨rfl, ?_⟩
        simp only [List.mem_cons, not_or]
        exact ⟨Ne.symm headSep, tailAbsent⟩

/--
Split at the separator into at most `count` pieces, the last piece holding the
rest of the list: the behaviour of `splitn`.
-/
def splitnList (sep : α) : Nat → List α → List (List α)
  | 0, _ =>
      []
  | 1, chars =>
      [chars]
  | count + 2, chars =>
      match breakAt sep chars with
      | (piece, none) => [piece]
      | (piece, some rest) => piece :: splitnList sep (count + 1) rest

/-- Three pieces joined by two separators split back into those pieces. -/
theorem splitnList_three
    {sep : α}
    {first second : List α}
    (firstAbsent : sep ∉ first)
    (secondAbsent : sep ∉ second)
    (third : List α) :
    splitnList sep 3 (first ++ sep :: (second ++ sep :: third)) =
      [first, second, third] := by
  simp [splitnList, breakAt_append_cons firstAbsent,
    breakAt_append_cons secondAbsent]

/-- Three pieces from `splitn` are the list cut at its first two separators. -/
theorem eq_of_splitnList_three
    {sep : α}
    {chars first second third : List α}
    (pieces : splitnList sep 3 chars = [first, second, third]) :
    chars = first ++ sep :: (second ++ sep :: third) ∧
      sep ∉ first ∧ sep ∉ second := by
  unfold splitnList at pieces
  rcases firstCut : breakAt sep chars with ⟨piece, _ | rest⟩
  · simp [firstCut] at pieces
  · simp only [firstCut, List.cons.injEq] at pieces
    obtain ⟨rfl, restPieces⟩ := pieces
    obtain ⟨charsShape, firstAbsent⟩ := eq_of_breakAt_eq_some firstCut
    unfold splitnList at restPieces
    rcases secondCut : breakAt sep rest with ⟨piece', _ | rest'⟩
    · simp [secondCut] at restPieces
    · simp only [secondCut, List.cons.injEq] at restPieces
      obtain ⟨rfl, thirdPiece⟩ := restPieces
      obtain ⟨restShape, secondAbsent⟩ := eq_of_breakAt_eq_some secondCut
      simp only [splitnList, List.cons.injEq, and_true] at thirdPiece
      subst thirdPiece
      exact ⟨by rw [charsShape, restShape], firstAbsent, secondAbsent⟩

end Lists

/-! ## The `str` methods -/

/-- `str::starts_with` with a string pattern. -/
def startsWith (text pat : String) : Bool :=
  pat.toList.isPrefixOf text.toList

theorem startsWith_eq_true_iff
    {text pat : String} :
    startsWith text pat = true ↔ pat.toList <+: text.toList := by
  simp [startsWith]

/-- A text starts with what it was built from. -/
theorem startsWith_append_self
    (pat rest : String) :
    startsWith (pat ++ rest) pat = true :=
  startsWith_eq_true_iff.mpr (by simp)

/--
A text built on a head that neither starts with the pattern nor begins it does
not start with the pattern: two prefixes of one text are prefixes of each other.
-/
theorem startsWith_append_eq_false
    {head pat : String}
    (notPrefix : startsWith head pat = false)
    (notExtended : startsWith pat head = false)
    (rest : String) :
    startsWith (head ++ rest) pat = false := by
  rw [Bool.eq_false_iff]
  intro starts
  have headFirst : head.toList <+: (head ++ rest).toList := by simp
  rcases List.prefix_or_prefix_of_prefix (startsWith_eq_true_iff.mp starts) headFirst with
    patFirst | headInPat
  · simp [startsWith_eq_true_iff.mpr patFirst] at notPrefix
  · simp [startsWith_eq_true_iff.mpr headInPat] at notExtended

/-- `str::strip_prefix` with a string pattern. -/
def stripPrefix? (text pat : String) : Option String :=
  (text.toList.dropPrefix? pat.toList).map String.ofList

/-- `str::strip_suffix` with a string pattern. -/
def stripSuffix? (text pat : String) : Option String :=
  (text.toList.dropSuffix? pat.toList).map String.ofList

/-- What `strip_suffix` leaves, followed by the suffix, is the text. -/
theorem stripSuffix?_eq_some
    {text pat rest : String}
    (stripped : stripSuffix? text pat = some rest) :
    rest ++ pat = text := by
  simp only [stripSuffix?, Option.map_eq_some_iff] at stripped
  obtain ⟨chars, dropped, rfl⟩ := stripped
  obtain ⟨suffix, textChars, suffixIsPat⟩ := List.dropSuffix?_eq_some_iff.mp dropped
  have sameSuffix : suffix = pat.toList := beq_iff_eq.mp suffixIsPat
  rw [← String.toList_inj, String.toList_append, String.toList_ofList, textChars,
    sameSuffix]

/-- A text followed by the suffix strips back to the text. -/
theorem stripSuffix?_append
    (text pat : String) :
    stripSuffix? (text ++ pat) pat = some text := by
  have dropped : (text ++ pat).toList.dropSuffix? pat.toList = some text.toList :=
    List.dropSuffix?_eq_some_iff.mpr ⟨pat.toList, by simp, by simp⟩
  rw [stripSuffix?, dropped, Option.map_some, String.ofList_toList]

/-- `str::contains` with a string pattern. -/
def contains (text pat : String) : Bool :=
  decide (pat.toList <:+: text.toList)

/-- A text contains every piece it was built around. -/
theorem contains_append_append
    (before pat after : String) :
    contains (before ++ pat ++ after) pat = true := by
  simp only [contains, String.toList_append, decide_eq_true_eq]
  exact List.infix_append _ _ _

/-- `str::split` with a `char` pattern: every piece, the empty ones included. -/
def split (text : String) (sep : Char) : List String :=
  (text.toList.splitOn sep).map String.ofList

/-- Different texts split into different pieces. -/
theorem split_injective
    (sep : Char) :
    Function.Injective fun text => split text sep := by
  intro text other samePieces
  have sameChars : text.toList.splitOn sep = other.toList.splitOn sep := by
    have := congrArg (List.map String.toList) samePieces
    simpa [split, Function.comp_def] using this
  have textJoined : [sep].intercalate (text.toList.splitOn sep) = text.toList :=
    List.intercalate_splitOn sep
  have otherJoined : [sep].intercalate (other.toList.splitOn sep) = other.toList :=
    List.intercalate_splitOn sep
  rw [← String.toList_inj, ← textJoined, ← otherJoined, sameChars]

/-- Splitting at the separator undoes joining separator-free pieces with it. -/
theorem split_intercalate
    (sep : Char)
    {pieces : List String}
    (noSep : ∀ piece ∈ pieces, sep ∉ piece.toList)
    (nonempty : pieces ≠ []) :
    split ((String.singleton sep).intercalate pieces) sep = pieces := by
  have charPieces : ∀ chars ∈ pieces.map String.toList, sep ∉ chars := by
    simpa using noSep
  simp only [split, String.toList_intercalate, String.toList_singleton]
  rw [List.splitOn_intercalate sep charPieces (by simpa using nonempty)]
  simp [Function.comp_def]

/-- `str::splitn` with a `char` pattern. -/
def splitn (text : String) (count : Nat) (sep : Char) : List String :=
  (splitnList sep count text.toList).map String.ofList

/-- `char::is_whitespace`: the Unicode `White_Space` property. -/
def isWhitespace (c : Char) : Bool :=
  let code := c.toNat
  (0x09 ≤ code && code ≤ 0x0D) || code == 0x20 || code == 0x85 ||
    code == 0xA0 || code == 0x1680 || (0x2000 ≤ code && code ≤ 0x200A) ||
    code == 0x2028 || code == 0x2029 || code == 0x202F || code == 0x205F ||
    code == 0x3000

/-- `str::trim`: drop leading and trailing whitespace. -/
def trim (text : String) : String :=
  String.ofList ((text.toList.dropWhile isWhitespace).rdropWhile isWhitespace)

/-- `text.trim().is_empty()` holds exactly for the all-whitespace strings. -/
theorem trim_eq_empty_iff
    (text : String) :
    trim text = "" ↔ ∀ c ∈ text.toList, isWhitespace c = true := by
  have emptyIff :
      trim text = "" ↔
        (text.toList.dropWhile isWhitespace).rdropWhile isWhitespace = [] := by
    rw [trim, ← String.toList_inj, String.toList_ofList]
    simp
  rw [emptyIff, List.rdropWhile_eq_nil_iff, ← List.dropWhile_eq_nil_iff,
    List.dropWhile_idempotent, List.dropWhile_eq_nil_iff]

/-- `str::as_bytes`: the UTF-8 encoding of the string. -/
def asBytes (text : String) : List UInt8 :=
  text.toUTF8.data.toList

/-- `String::from_utf8`: the string the bytes encode, `none` if they are not UTF-8. -/
def fromUtf8 (bytes : List UInt8) : Option String :=
  String.fromUTF8? ⟨bytes.toArray⟩

/-- Decoding the UTF-8 encoding of a string gives the string back. -/
@[simp]
theorem fromUtf8_asBytes
    (text : String) :
    fromUtf8 (asBytes text) = some text := by
  simp [fromUtf8, asBytes, String.fromUTF8?, text.isValidUTF8]
  rfl

end NitroEncSvc.Str
