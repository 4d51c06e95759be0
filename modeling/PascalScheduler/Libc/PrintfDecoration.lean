import PascalScheduler.Libc.PrintfFormat

/-!
Flags and widths. `cnprintf` reads them into its `struct s_fmt` and looks at
neither again: a format with them makes the same calls, in the same order, as the
format without.
-/

namespace PascalScheduler

/-- The flags of the parser. -/
inductive Flag where
  | plus
  | minus
  | space
  | sharp
  | zero
  deriving DecidableEq

def Flag.char : Flag → UInt8
  | .plus => '+'.toUInt8
  | .minus => '-'.toUInt8
  | .space => ' '.toUInt8
  | .sharp => '#'.toUInt8
  | .zero => '0'.toUInt8

def Flag.value : Flag → Nat
  | .plus => fmtFlagPlus
  | .minus => fmtFlagMinus
  | .space => fmtFlagSpace
  | .sharp => fmtFlagSharp
  | .zero => fmtFlagZero

def widthChar (digit : Fin 10) : UInt8 :=
  '0'.toUInt8 + UInt8.ofNat digit

/-- A piece of a format whose directives may have a flag and a width. -/
inductive Piece where
  | literal (c : UInt8) (nonzero : c ≠ 0) (plain : c ≠ '%'.toUInt8)
  | directive (flag : Option Flag) (width : List (Fin 10)) (length : LengthMod)
      (spec : Conversion)

namespace Piece

def flagChars : Option Flag → List UInt8
  | none => []
  | some flag => [flag.char]

def chars : Piece → List UInt8
  | .literal c _ _ => [c]
  | .directive flag width length spec =>
      '%'.toUInt8 :: (flagChars flag ++ (width.map widthChar ++ (length.chars ++ [spec.char])))

/-- The piece without its flag and width. -/
def item : Piece → Item
  | .literal c hzero hplain => .literal c hzero hplain
  | .directive _ _ length spec => .directive length spec

theorem widthChar_ne_zero (digit : Fin 10) : widthChar digit ≠ 0 := by
  revert digit
  decide

theorem chars_ne_zero (piece : Piece) : ∀ c ∈ piece.chars, c ≠ 0 := by
  cases piece with
  | literal c hzero _ => simpa [chars] using hzero
  | directive flag width length spec =>
      intro c hc
      simp only [chars, List.mem_cons, List.mem_append, List.mem_map] at hc
      rcases hc with rfl | hflag | ⟨digit, _, rfl⟩ | hrest
      · decide
      · cases flag with
        | none => cases hflag
        | some flag =>
            rw [List.mem_singleton.mp hflag]
            cases flag <;> decide
      · exact widthChar_ne_zero digit
      · apply (Item.directive length spec).chars_ne_zero c
        simp only [Item.chars, List.mem_cons, List.mem_append]
        exact .inr (by simpa using hrest)

theorem length_chars_pos (piece : Piece) : 0 < piece.chars.length := by
  cases piece <;> simp [chars]

theorem length_item_le (piece : Piece) : piece.item.chars.length ≤ piece.chars.length := by
  cases piece with
  | literal c _ _ => exact le_refl _
  | directive flag width length spec =>
      simp only [item, chars, Item.chars, List.length_cons, List.length_append]
      omega

end Piece

/-- The format that the pieces make up. -/
def decoratedFormat (pieces : List Piece) : CString where
  chars := pieces.flatMap Piece.chars
  noNul c hc := by
    obtain ⟨piece, _, hmem⟩ := List.mem_flatMap.mp hc
    exact piece.chars_ne_zero c hmem

/-- A turn without what the conversion does not read. -/
def Turn.bare : Turn → Turn
  | .literal c => .literal c
  | .directive fmt => .directive { fmt with p := [], flags := 0, width := 0 }

/-- The bare turn on a piece. -/
def Item.bareTurn (item : Item) : Turn :=
  (item.turn []).bare

section Conversion

variable {args : Arguments}

/-- The conversion reads the length and the specifier only. -/
theorem play_bare (ts : List Turn) (s : Locals) :
    play args (ts.map Turn.bare) s = play args ts s := by
  induction ts generalizing s with
  | nil => rfl
  | cons t ts ih =>
      have hrest : play args (ts.map Turn.bare) = play args ts := funext ih
      cases t with
      | literal c => exact congrArg (Trace.step (.cb c)) (ih s)
      | directive fmt =>
          rw [List.map_cons, Turn.bare, play, play, hrest]
          rfl

end Conversion

section Parse

theorem flagOf_char (flag : Flag) : flagOf flag.char = some flag.value := by
  cases flag <;> decide

/-- The digits of a width are read up to the next character. -/
theorem widthLoop_digits (width : List (Fin 10)) (length : LengthMod) (spec : Conversion)
    (p : List UInt8) (w : Int32) :
    (widthLoop (width.map widthChar ++ (length.chars ++ spec.char :: p)) w).1 =
      length.chars ++ spec.char :: p := by
  induction width generalizing w with
  | nil => cases length <;> cases spec <;> rfl
  | cons digit width ih =>
      have hdigit : widthChar digit ≤ '9'.toUInt8 ∧ widthChar digit ≥ '0'.toUInt8 := by
        revert digit
        decide
      rw [List.map_cons, List.cons_append, widthLoop, if_pos hdigit]
      exact ih _

/-- A zero at the start of a width is taken for a flag. -/
theorem fmtFlags_decorated (flag : Option Flag) (width : List (Fin 10)) (length : LengthMod)
    (spec : Conversion) (p : List UInt8) :
    ∃ (flags : Nat) (width' : List (Fin 10)),
      fmtFlags ⟨Piece.flagChars flag ++ (width.map widthChar ++ (length.chars ++ spec.char :: p)),
        0, 0, 0, 0⟩ =
        ⟨width'.map widthChar ++ (length.chars ++ spec.char :: p), flags, 0, 0, 0⟩ := by
  cases flag with
  | some flag =>
      refine ⟨flag.value, width, ?_⟩
      simp [fmtFlags, Piece.flagChars, peek, flagOf_char]
  | none =>
      cases width with
      | nil =>
          refine ⟨0, [], ?_⟩
          cases length <;> cases spec <;> rfl
      | cons digit width =>
          by_cases hzero : digit = 0
          · subst hzero
            have hflag : flagOf (widthChar 0) = some fmtFlagZero := by decide
            refine ⟨fmtFlagZero, width, ?_⟩
            simp [fmtFlags, Piece.flagChars, peek, hflag]
          · have hnone : flagOf (widthChar digit) = none := by
              revert digit
              decide
            refine ⟨0, digit :: width, ?_⟩
            simp [fmtFlags, Piece.flagChars, peek, hnone]

theorem fmtLength_decorated (length : LengthMod) (spec : Conversion) (p : List UInt8) (flags : Nat)
    (width : Int32) :
    fmtLength ⟨length.chars ++ spec.char :: p, flags, width, 0, 0⟩ =
      ⟨spec.char :: p, flags, width, length.value, 0⟩ := by
  have hspec : spec.char ≠ 'h'.toUInt8 ∧ spec.char ≠ 'l'.toUInt8 := by
    cases spec <;> decide
  have hne : 'l'.toUInt8 ≠ 'h'.toUInt8 := by decide
  cases length <;>
    simp [fmtLength, peek, LengthMod.chars, LengthMod.value, hspec.1, hspec.2, hne]

/-- A decorated directive is parsed as the plain one, but for the fields of the
decoration. -/
theorem parseDirective_decorated (flag : Option Flag) (width : List (Fin 10))
    (length : LengthMod) (spec : Conversion) (p : List UInt8) :
    ∃ flags w, parseDirective (Piece.flagChars flag ++
        (width.map widthChar ++ (length.chars ++ spec.char :: p))) =
      { parsedItem length spec p with flags := flags, width := w } := by
  obtain ⟨flags, width', hflags⟩ := fmtFlags_decorated flag width length spec p
  have hdigits := widthLoop_digits width' length spec p 0
  generalize hloop : widthLoop (width'.map widthChar ++ (length.chars ++ spec.char :: p)) 0 = r
    at hdigits
  refine ⟨flags, r.2, ?_⟩
  have hspec : specifierOf (peek (spec.char :: p)) = some spec.value := specifierOf_char spec
  rw [parseDirective, hflags]
  simp only [fmtWidth, hloop, hdigits, fmtLength_decorated, fmtSpecifier, hspec]
  simp [parsedItem]

/-- The turns on a decorated format, up to the decoration: one for each piece. -/
theorem turnsFrom_pieces (size : Int) (length turns : Nat) (pieces : List Piece)
    (hlength : (pieces.flatMap Piece.chars).length ≤ length) (hsize : (length : Int) ≤ size)
    (hturns : (pieces.flatMap Piece.chars).length < turns) :
    (turnsFrom size length turns (pieces.flatMap Piece.chars)).map Turn.bare =
      pieces.map fun piece => piece.item.bareTurn := by
  induction pieces generalizing turns with
  | nil =>
      obtain ⟨turns, rfl⟩ := Nat.exists_eq_add_one.mpr hturns
      rfl
  | cons piece pieces ih =>
      obtain ⟨turns, rfl⟩ := Nat.exists_eq_add_one.mpr (Nat.lt_of_le_of_lt (Nat.zero_le _) hturns)
      have hpos := piece.length_chars_pos
      rw [List.flatMap_cons, List.length_append] at hlength hturns
      have hrest := ih turns (by omega) (by omega)
      have hbefore :
          (length : Int) - (piece.chars ++ pieces.flatMap Piece.chars).length < size := by
        rw [List.length_append]
        omega
      have hfirst : peek (piece.chars ++ pieces.flatMap Piece.chars) ≠ 0 := by
        cases piece with
        | literal c hzero _ => exact hzero
        | directive flag width length spec => exact (by decide : '%'.toUInt8 ≠ 0)
      rw [List.flatMap_cons, turnsFrom, if_pos ⟨hfirst, hbefore⟩, List.map_cons, ← hrest]
      cases piece with
      | literal c hzero hplain =>
          have hliteral : peek (Piece.chars (.literal c hzero hplain) ++
              pieces.flatMap Piece.chars) ≠ '%'.toUInt8 := hplain
          rw [if_pos hliteral]
          rfl
      | directive flag width length spec =>
          obtain ⟨flags, w, hparse⟩ := parseDirective_decorated flag width length spec
            (pieces.flatMap Piece.chars)
          have htail : (Piece.chars (.directive flag width length spec) ++
              pieces.flatMap Piece.chars).tail = Piece.flagChars flag ++
                (width.map widthChar ++ (length.chars ++ spec.char ::
                  pieces.flatMap Piece.chars)) := by
            simp [Piece.chars]
          rw [if_neg (by simp [Piece.chars, peek]), htail, hparse]
          rfl

/-- A plain format that fits makes one turn for each piece. -/
theorem itemTurns_bare (size : Int) (offset : Nat) (items : List Item)
    (hsize : ((offset + (items.flatMap Item.chars).length : Nat) : Int) ≤ size) :
    (itemTurns size offset items).map Turn.bare = items.map Item.bareTurn := by
  induction items generalizing offset with
  | nil => rfl
  | cons item items ih =>
      have hpos := item.length_chars_pos
      rw [List.flatMap_cons, List.length_append] at hsize
      rw [itemTurns, if_pos (by omega), List.map_cons, List.map_cons,
        ih (offset + item.chars.length) (by omega)]
      cases item <;> rfl

end Parse

theorem length_plain_le (pieces : List Piece) :
    ((pieces.map Piece.item).flatMap Item.chars).length ≤
      (pieces.flatMap Piece.chars).length := by
  induction pieces with
  | nil => exact le_refl _
  | cons piece pieces ih =>
      have hone := piece.length_item_le
      simp only [List.map_cons, List.flatMap_cons, List.length_append]
      omega

/-- For every format that fits, with any flags and widths, and every argument
list: `cnprintf` does what it does on the format without them, down to the last
access to its buffer. -/
theorem printf_ignores_decoration (args : Arguments) (size : Int) (pieces : List Piece)
    (bf : Nat → UInt8) (hsize : ((decoratedFormat pieces).chars.length : Int) ≤ size) :
    cnprintf args size (decoratedFormat pieces) bf =
      cnprintf args size (formatOf (pieces.map Piece.item)) bf := by
  have hplain : (itemTurns size 0 (pieces.map Piece.item)).map Turn.bare =
      pieces.map fun piece => piece.item.bareTurn := by
    rw [itemTurns_bare size 0 _ _, List.map_map]
    · rfl
    · have hle := length_plain_le pieces
      have hfits : ((pieces.flatMap Piece.chars).length : Int) ≤ size := hsize
      omega
  have hturns : (turnsOf size (decoratedFormat pieces)).map Turn.bare =
      pieces.map fun piece => piece.item.bareTurn :=
    turnsFrom_pieces size _ _ pieces (le_refl _) hsize (Nat.lt_succ_self _)
  rw [cnprintf_play, cnprintf_play, turnsOf_items, ← play_bare (turnsOf size _), hturns, ← hplain,
    play_bare]

/-- `%05d|%-3c` prints as `%d|%c`. -/
def decoratedPieces : List Piece :=
  [.directive none [0, 5] .none .d, .literal '|'.toUInt8 (by decide) (by decide),
    .directive (some .minus) [3] .none .c]

theorem printf_ignores_decoration_zeros :
    sent (cnprintf sampleArguments 128 (decoratedFormat decoratedPieces) (fun _ => 0)).events =
      "-2147483648|F".toList.map Char.toUInt8 := by
  rw [printf_ignores_decoration sampleArguments 128 decoratedPieces (fun _ => 0) (by decide)]
  decide +kernel

end PascalScheduler
