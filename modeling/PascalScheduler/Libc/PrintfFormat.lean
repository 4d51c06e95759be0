import PascalScheduler.Libc.PrintfScratch

/-!
Formats built from literal characters and directives without flags and width:
what they print, and which arguments their directives take.
-/

namespace PascalScheduler

/-- The length modifiers of the parser. -/
inductive LengthMod where
  | none
  | h
  | hh
  | l
  | ll
  deriving DecidableEq

/-- The specifiers of the parser. -/
inductive Conversion where
  | d
  | i
  | u
  | x
  | c
  | s
  deriving DecidableEq

namespace LengthMod

def chars : LengthMod → List UInt8
  | .none => []
  | .h => ['h'.toUInt8]
  | .hh => ['h'.toUInt8, 'h'.toUInt8]
  | .l => ['l'.toUInt8]
  | .ll => ['l'.toUInt8, 'l'.toUInt8]

def value : LengthMod → Nat
  | .none => 0
  | .h => fmtLenH
  | .hh => fmtLenHh
  | .l => fmtLenL
  | .ll => fmtLenLl

end LengthMod

namespace Conversion

def char : Conversion → UInt8
  | .d => 'd'.toUInt8
  | .i => 'i'.toUInt8
  | .u => 'u'.toUInt8
  | .x => 'x'.toUInt8
  | .c => 'c'.toUInt8
  | .s => 's'.toUInt8

def value : Conversion → Nat
  | .d => fmtSpecI
  | .i => fmtSpecI
  | .u => fmtSpecU
  | .x => fmtSpecX
  | .c => fmtSpecC
  | .s => fmtSpecS

end Conversion

/-- A piece of a format. -/
inductive Item where
  | literal (c : UInt8) (nonzero : c ≠ 0) (plain : c ≠ '%'.toUInt8)
  | directive (length : LengthMod) (spec : Conversion)

namespace Item

def chars : Item → List UInt8
  | .literal c _ _ => [c]
  | .directive length spec => '%'.toUInt8 :: (length.chars ++ [spec.char])

theorem chars_ne_zero (item : Item) : ∀ c ∈ item.chars, c ≠ 0 := by
  cases item with
  | literal c hzero _ => simpa [chars] using hzero
  | directive length spec => cases length <;> cases spec <;> decide +kernel

theorem length_chars_pos (item : Item) : 0 < item.chars.length := by
  cases item <;> simp [chars]

/-- Directives whose length is not `ll` and whose conversion is not `%x`. -/
def Plain : Item → Prop
  | .literal _ _ _ => True
  | .directive length spec => length ≠ .ll ∧ spec ≠ .x

/-- A number with `ll`. -/
def LongLong : Item → Prop
  | .literal _ _ _ => False
  | .directive length spec => length = .ll ∧ spec ≠ .c ∧ spec ≠ .s

end Item

/-- The format that the pieces make up. -/
def formatOf (items : List Item) : CString where
  chars := items.flatMap Item.chars
  noNul c hc := by
    obtain ⟨item, _, hmem⟩ := List.mem_flatMap.mp hc
    exact item.chars_ne_zero c hmem

/-- What a directive prints for its word. -/
def Conversion.render (args : Arguments) (w : UInt32) : Conversion → List UInt8
  | .d => signedNumeral 10 w.toInt32.toInt
  | .i => signedNumeral 10 w.toInt32.toInt
  | .u => numeral 10 w.toNat
  | .x => zeroX ++ signedNumeral 16 w.toInt32.toInt
  | .c => [w.toUInt8]
  | .s => (args.string w).chars

/-- The literal characters and the arguments, in order. -/
def renderItems (args : Arguments) : Nat → List Item → List UInt8
  | _, [] => []
  | va, .literal c _ _ :: items => c :: renderItems args va items
  | va, .directive _ spec :: items =>
      spec.render args (args.word va) ++ renderItems args (va + 1) items

/-- The arguments match: the characters among them are not NUL. -/
def Matching (args : Arguments) : Nat → List Item → Prop
  | _, [] => True
  | va, .literal _ _ _ :: items => Matching args va items
  | va, .directive _ spec :: items =>
      (spec = .c → (args.word va).toUInt8 ≠ 0) ∧ Matching args (va + 1) items

/-- The pieces that start before `size`, when the first one starts at
`offset`. -/
def reached (size : Int) : Nat → List Item → List Item
  | _, [] => []
  | offset, item :: items =>
      if offset < size then item :: reached size (offset + item.chars.length) items else []

/-- What the parser makes of a directive. -/
def parsedItem (length : LengthMod) (spec : Conversion) (p : List UInt8) : SFmt where
  p := p
  flags := 0
  width := 0
  length := length.value
  specifier := spec.value

/-- The turn on a piece, with the rest of the format behind it. -/
def Item.turn (p : List UInt8) : Item → Turn
  | .literal c _ _ => .literal c
  | .directive length spec => .directive (parsedItem length spec p)

def itemTurns (size : Int) : Nat → List Item → List Turn
  | _, [] => []
  | offset, item :: items =>
      if offset < size then
        item.turn (items.flatMap Item.chars) ::
          itemTurns size (offset + item.chars.length) items
      else []

section Parse

theorem specifierOf_char (spec : Conversion) : specifierOf spec.char = some spec.value := by
  cases spec <;> decide

theorem fmtSpecifier_char (spec : Conversion) (p : List UInt8) (length : Nat) :
    fmtSpecifier ⟨spec.char :: p, 0, 0, length, 0⟩ = ⟨p, 0, 0, length, spec.value⟩ := by
  have hcase : specifierOf (peek (spec.char :: p)) = some spec.value := specifierOf_char spec
  simp [fmtSpecifier, hcase]

/-- No character of a directive is a flag or a digit of the width. -/
theorem fmtWidth_chars (length : LengthMod) (spec : Conversion) (p : List UInt8) :
    fmtWidth (fmtFlags ⟨length.chars ++ spec.char :: p, 0, 0, 0, 0⟩) =
      ⟨length.chars ++ spec.char :: p, 0, 0, 0, 0⟩ := by
  cases length <;> cases spec <;> rfl

theorem fmtLength_chars (length : LengthMod) (spec : Conversion) (p : List UInt8) :
    fmtLength ⟨length.chars ++ spec.char :: p, 0, 0, 0, 0⟩ =
      ⟨spec.char :: p, 0, 0, length.value, 0⟩ := by
  have hspec : spec.char ≠ 'h'.toUInt8 ∧ spec.char ≠ 'l'.toUInt8 := by
    cases spec <;> decide
  have hne : 'l'.toUInt8 ≠ 'h'.toUInt8 := by decide
  cases length <;>
    simp [fmtLength, peek, LengthMod.chars, LengthMod.value, hspec.1, hspec.2, hne]

theorem parseDirective_item (length : LengthMod) (spec : Conversion) (p : List UInt8) :
    parseDirective (length.chars ++ spec.char :: p) = parsedItem length spec p := by
  rw [parseDirective, fmtWidth_chars, fmtLength_chars, fmtSpecifier_char]
  rfl

/-- The loop makes one turn for each piece that starts before `size`. -/
theorem turnsFrom_items (size : Int) (length turns offset : Nat) (items : List Item)
    (hoffset : offset + (items.flatMap Item.chars).length = length)
    (hturns : (items.flatMap Item.chars).length < turns) :
    turnsFrom size length turns (items.flatMap Item.chars) = itemTurns size offset items := by
  induction items generalizing turns offset with
  | nil =>
      obtain ⟨turns, rfl⟩ := Nat.exists_eq_add_one.mpr hturns
      rfl
  | cons item items ih =>
      obtain ⟨turns, rfl⟩ := Nat.exists_eq_add_one.mpr (Nat.lt_of_le_of_lt (Nat.zero_le _) hturns)
      have hpos := item.length_chars_pos
      rw [List.flatMap_cons, List.length_append] at hoffset hturns
      have hrest := ih turns (offset + item.chars.length) (by omega) (by omega)
      have hplace : (length : Int) - (item.chars ++ items.flatMap Item.chars).length = offset := by
        rw [List.length_append]
        omega
      have hfirst : peek (item.chars ++ items.flatMap Item.chars) ≠ 0 := by
        cases item with
        | literal c hzero _ => exact hzero
        | directive length spec => exact (by decide : '%'.toUInt8 ≠ 0)
      rw [List.flatMap_cons, turnsFrom, itemTurns, hplace]
      by_cases hbefore : (offset : Int) < size
      · rw [if_pos ⟨hfirst, hbefore⟩, if_pos hbefore, ← hrest]
        cases item with
        | literal c hzero hplain => exact if_pos hplain
        | directive length spec =>
            have hparse := parseDirective_item length spec (items.flatMap Item.chars)
            simp [Item.chars, Item.turn, peek, hparse, parsedItem]
      · rw [if_neg (fun h => hbefore h.2), if_neg hbefore]

theorem turnsOf_items (size : Int) (items : List Item) :
    turnsOf size (formatOf items) = itemTurns size 0 items :=
  turnsFrom_items size _ _ 0 items (Nat.zero_add _) (Nat.lt_succ_self _)

theorem parsedItem_parsed (length : LengthMod) (spec : Conversion) (p : List UInt8) :
    Parsed (parsedItem length spec p) := by
  rw [← parseDirective_item]
  exact parseDirective_parsed _

theorem itemTurns_parsed {size : Int} {offset : Nat} {items : List Item} {fmt : SFmt}
    (h : .directive fmt ∈ itemTurns size offset items) :
    ∃ length spec p, fmt = parsedItem length spec p := by
  induction items generalizing offset with
  | nil => cases h
  | cons item items ih =>
      rw [itemTurns] at h
      split at h
      · rcases List.mem_cons.mp h with heq | hmem
        · cases item with
          | literal c _ _ => cases heq
          | directive length spec =>
              cases heq
              exact ⟨length, spec, _, rfl⟩
        · exact ih hmem
      · cases h

theorem parsedItem_longLong (length : LengthMod) (spec : Conversion) (p : List UInt8) :
    (parsedItem length spec p).longLong ↔ (Item.directive length spec).LongLong := by
  cases length <;> cases spec <;>
    simp [SFmt.longLong, SFmt.isNumber, parsedItem, Item.LongLong, LengthMod.value,
      Conversion.value, fmtSpecI, fmtSpecU, fmtSpecC, fmtSpecS, fmtSpecX, fmtLenH, fmtLenHh,
      fmtLenL, fmtLenLl]

theorem parsedItem_specifier (length : LengthMod) (spec : Conversion) (p : List UInt8) :
    (parsedItem length spec p).specifier ≠ 0 := by
  change spec.value ≠ 0
  cases spec <;> decide

/-- Without `ll` a text has its NUL. -/
theorem parsedItem_ends {length : LengthMod} {spec : Conversion} {p : List UInt8}
    (h : ¬ (Item.directive length spec).LongLong) (w : UInt32) :
    0 ∈ textOf (parsedItem length spec p) w := by
  by_contra hopen
  rcases (textOf_open_iff w (parsedItem_parsed length spec p)).mp hopen with hnone | hlong
  · exact parsedItem_specifier length spec p hnone
  · exact h ((parsedItem_longLong length spec p).mp hlong)

theorem parsedItem_takes {length : LengthMod} {spec : Conversion} {p : List UInt8} :
    (parsedItem length spec p).takesArgument ↔ ¬ (Item.directive length spec).LongLong := by
  rw [SFmt.takesArgument, parsedItem_longLong]
  exact and_iff_right (parsedItem_specifier length spec p)

end Parse

section Render

variable {args : Arguments}

theorem takeWhile_nul {chars : List UInt8} (h : ∀ c ∈ chars, c ≠ 0) :
    (chars ++ [0]).takeWhile (· ≠ 0) = chars := by
  induction chars with
  | nil => rfl
  | cons c cs ih =>
      obtain ⟨hc, hcs⟩ := List.forall_mem_cons.mp h
      rw [List.cons_append, List.takeWhile_cons_of_pos (by simp [hc]), ih hcs]

/-- A number without `ll` is shown as its numeral. -/
theorem shownOf_number {fmt : SFmt} {w : UInt32} {shown : List UInt8}
    (hshort : fmt.length ≠ fmtLenLl) (htext : textOf fmt w = numberText fmt shown)
    (hnul : ∀ c ∈ shown, c ≠ 0) : shownOf fmt w = shown := by
  rw [shownOf, htext, numberText, if_neg hshort]
  exact takeWhile_nul hnul

/-- What a plain directive prints. -/
theorem parsedItem_render {length : LengthMod} {spec : Conversion} {p : List UInt8} {w : UInt32}
    (hplain : (Item.directive length spec).Plain) (hchar : spec = .c → w.toUInt8 ≠ 0) :
    stringOf args (parsedItem length spec p) w ++ shownOf (parsedItem length spec p) w =
      spec.render args w := by
  have hshort : (parsedItem length spec p).length ≠ fmtLenLl := by
    have hlong := hplain.1
    change length.value ≠ fmtLenLl
    revert hlong
    cases length <;> decide
  have hten : 1 < 10 ∧ 10 ≤ 36 := by decide
  cases spec with
  | d =>
      rw [stringOf_other _ args (by exact (by decide : fmtSpecI ≠ fmtSpecS)), List.nil_append]
      exact shownOf_number hshort (textOf_signed w rfl)
        (signedNumeral_ne_zero hten.1 hten.2 _)
  | i =>
      rw [stringOf_other _ args (by exact (by decide : fmtSpecI ≠ fmtSpecS)), List.nil_append]
      exact shownOf_number hshort (textOf_signed w rfl)
        (signedNumeral_ne_zero hten.1 hten.2 _)
  | u =>
      rw [stringOf_other _ args (by exact (by decide : fmtSpecU ≠ fmtSpecS)), List.nil_append]
      exact shownOf_number hshort (textOf_unsigned w rfl) (numeral_ne_zero hten.1 hten.2)
  | x => exact absurd rfl hplain.2
  | c =>
      rw [stringOf_other _ args (by exact (by decide : fmtSpecC ≠ fmtSpecS)), List.nil_append,
        shownOf, textOf_char w rfl]
      have hnul : ∀ c ∈ [w.toUInt8], c ≠ 0 := by simpa using hchar rfl
      exact takeWhile_nul hnul
  | s =>
      have hspec : (parsedItem length .s p).specifier = fmtSpecS := rfl
      rw [shownOf, textOf_string w hspec, stringOf, if_pos hspec]
      exact List.append_nil _

/-- A plain format runs to its end, and every turn prints what it should. -/
theorem itemTurns_rendered (size : Int) (offset va : Nat) (bf : Nat → UInt8) (items : List Item)
    (hsize : (offset + (items.flatMap Item.chars).length : Int) ≤ size)
    (hplain : ∀ item ∈ items, item.Plain) (hmatch : Matching args va items) :
    AllEnded args (itemTurns size offset items) ⟨va, bf⟩ ∧
      rendered args va (itemTurns size offset items) = renderItems args va items := by
  induction items generalizing offset va bf with
  | nil => exact ⟨trivial, rfl⟩
  | cons item items ih =>
      obtain ⟨hitem, hitems⟩ := List.forall_mem_cons.mp hplain
      have hpos := item.length_chars_pos
      rw [List.flatMap_cons, List.length_append] at hsize
      have hbefore : (offset : Int) < size := by omega
      rw [itemTurns, if_pos hbefore]
      cases item with
      | literal c hzero hnot =>
          obtain ⟨hended, hrest⟩ := ih (offset + 1) va bf
            (by simp only [Item.chars, List.length_singleton] at hsize; omega) hitems hmatch
          exact ⟨hended, congrArg (c :: ·) hrest⟩
      | directive length spec =>
          obtain ⟨hchar, hrest⟩ := hmatch
          have hshort : ¬ (Item.directive length spec).LongLong := fun h => hitem.1 h.1
          obtain ⟨hended, hrendered⟩ := ih (offset + (Item.directive length spec).chars.length)
            (va + 1) (overlay 0 (textOf (parsedItem length spec (items.flatMap Item.chars))
              (args.word va)) bf) (by omega) hitems hrest
          have htakes := parsedItem_takes (p := items.flatMap Item.chars).mpr hshort
          refine ⟨⟨.inl (parsedItem_ends hshort _), ?_⟩, ?_⟩
          · rw [Locals.after, if_pos htakes]
            exact hended
          · rw [Item.turn, rendered, if_pos htakes, parsedItem_render hitem hchar, hrendered]
            rfl

/-- `cnprintf` prints the literal characters and, for each directive, the
canonical decimal numeral, the character or the string of its argument. -/
theorem printf_renders (args : Arguments) (size : Int) (items : List Item) (bf : Nat → UInt8)
    (hsize : ((formatOf items).chars.length : Int) ≤ size)
    (hplain : ∀ item ∈ items, item.Plain) (hmatch : Matching args 0 items) :
    (cnprintf args size (formatOf items) bf).result = some 0 ∧
      sent (cnprintf args size (formatOf items) bf).events = renderItems args 0 items := by
  have hparsed : ∀ fmt, .directive fmt ∈ itemTurns size 0 items → Parsed fmt := by
    intro fmt h
    obtain ⟨length, spec, p, rfl⟩ := itemTurns_parsed h
    exact parsedItem_parsed length spec p
  obtain ⟨hended, hrendered⟩ := itemTurns_rendered size 0 0 bf items
    (by rw [Nat.cast_zero, zero_add]; exact hsize) hplain hmatch
  rw [cnprintf_play, turnsOf_items]
  constructor
  · obtain ⟨s', hresult⟩ := play_ends _ _ hparsed hended
    rw [Trace.result_map, hresult]
    rfl
  · rw [Trace.events_map, play_rendered _ _ hparsed hended]
    exact hrendered

/-- The format `n%d%hu%lc%s`. -/
def sampleItems : List Item :=
  [.literal 'n'.toUInt8 (by decide) (by decide), .directive .none .d, .directive .h .u,
    .directive .l .c, .directive .none .s]

/-- `INT_MIN`, 70, `A` and the string `ok`. -/
def sampleArguments : Arguments where
  word k := [0x80000000, 70, 65].getD k 0
  string _ := ⟨['o'.toUInt8, 'k'.toUInt8], by decide +kernel⟩

/-- It prints `n-214748364870Aok`. -/
theorem printf_renders_int_min :
    sent (cnprintf sampleArguments 128 (formatOf sampleItems) (fun _ => 0xAA)).events =
        renderItems sampleArguments 0 sampleItems ∧
      renderItems sampleArguments 0 sampleItems =
        "n-214748364870Aok".toList.map Char.toUInt8 := by
  have hmatch : Matching sampleArguments 0 sampleItems :=
    ⟨nofun, nofun, fun _ => by decide, nofun, trivial⟩
  have hplain : ∀ item ∈ sampleItems, item.Plain := by simp [sampleItems, Item.Plain]
  have hrenders := (printf_renders sampleArguments 128 sampleItems (fun _ => 0xAA) (by decide)
    hplain hmatch).2
  refine ⟨hrenders, ?_⟩
  rw [← hrenders]
  decide +kernel

end Render

end PascalScheduler
