import PascalScheduler.Libc.PrintfNumbers

/-!
A call of `cnprintf` as the list of its turns. What the loop reads of the format
depends on the format alone, so the turns can be listed first and carried out
afterwards. Each turn on a directive is then described by the text that it
leaves in `bf`, and later modules do not unfold the conversions.
-/

namespace PascalScheduler

section Parse

variable (fmt : SFmt)

theorem widthLoop_suffix (p : List UInt8) (width : Int32) : (widthLoop p width).1 <:+ p := by
  induction p generalizing width with
  | nil => exact List.suffix_refl _
  | cons c p ih =>
      unfold widthLoop
      split
      · exact (ih _).trans (List.suffix_cons c p)
      · exact List.suffix_refl _

theorem fmtFlags_suffix : (fmtFlags fmt).p <:+ fmt.p := by
  unfold fmtFlags
  split
  · exact List.tail_suffix _
  · exact List.suffix_refl _

theorem fmtLength_suffix : (fmtLength fmt).p <:+ fmt.p := by
  have htwice : fmt.p.tail.tail <:+ fmt.p := (List.tail_suffix _).trans (List.tail_suffix _)
  unfold fmtLength
  dsimp only
  split_ifs
  · exact htwice
  · exact List.tail_suffix _
  · exact htwice
  · exact List.tail_suffix _
  · exact List.suffix_refl _

theorem fmtSpecifier_suffix : (fmtSpecifier fmt).p <:+ fmt.p := by
  unfold fmtSpecifier
  split
  · exact List.tail_suffix _
  · exact List.suffix_refl _

/-- The parser only moves forward. -/
theorem parseDirective_suffix (p : List UInt8) : (parseDirective p).p <:+ p :=
  (fmtSpecifier_suffix _).trans ((fmtLength_suffix _).trans
    ((widthLoop_suffix _ 0).trans (fmtFlags_suffix _)))

/-- What the parser can leave in the two fields that `cnprintf` tests. -/
structure Parsed (fmt : SFmt) : Prop where
  length : fmt.length = 0 ∨ fmt.length = fmtLenHh ∨ fmt.length = fmtLenH ∨
    fmt.length = fmtLenL ∨ fmt.length = fmtLenLl
  specifier : fmt.specifier = 0 ∨ fmt.specifier = fmtSpecI ∨ fmt.specifier = fmtSpecU ∨
    fmt.specifier = fmtSpecC ∨ fmt.specifier = fmtSpecS ∨ fmt.specifier = fmtSpecX

theorem specifierOf_cases (c : UInt8) : specifierOf c = none ∨ specifierOf c = some fmtSpecI ∨
    specifierOf c = some fmtSpecU ∨ specifierOf c = some fmtSpecC ∨
    specifierOf c = some fmtSpecS ∨ specifierOf c = some fmtSpecX := by
  unfold specifierOf
  split_ifs <;> simp

theorem parseDirective_parsed (p : List UInt8) : Parsed (parseDirective p) := by
  have hflags : (fmtFlags ⟨p, 0, 0, 0, 0⟩).length = 0 ∧
      (fmtFlags ⟨p, 0, 0, 0, 0⟩).specifier = 0 := by
    unfold fmtFlags
    split
    · exact ⟨rfl, rfl⟩
    · exact ⟨rfl, rfl⟩
  generalize hwidth : fmtWidth (fmtFlags ⟨p, 0, 0, 0, 0⟩) = f
  have hstart : f.length = 0 ∧ f.specifier = 0 := by
    rw [← hwidth]
    exact hflags
  have hlength : Parsed (fmtLength f) := by
    refine ⟨?_, ?_⟩
    · unfold fmtLength
      dsimp only
      split_ifs <;> simp [hstart.1]
    · left
      unfold fmtLength
      dsimp only
      split_ifs <;> exact hstart.2
  have hspec : (fmtLength f).specifier = 0 := by
    unfold fmtLength
    dsimp only
    split_ifs <;> exact hstart.2
  rw [parseDirective, hwidth]
  unfold fmtSpecifier
  split
  · rename_i spec hcase
    refine ⟨hlength.length, ?_⟩
    rcases specifierOf_cases (peek (fmtLength f).p) with h | h | h | h | h | h <;>
      rw [hcase] at h <;> simp_all
  · exact hlength

end Parse

/-- One turn of the loop of `cnprintf`: a character of the format, or a
directive. -/
inductive Turn where
  | literal (c : UInt8)
  | directive (fmt : SFmt)

/-- The turns that the loop makes, with the tests and the parser of
`cnprintf`. -/
def turnsFrom (size : Int) (length : Nat) : Nat → List UInt8 → List Turn
  | 0, _ => []
  | turns + 1, p =>
      if peek p ≠ 0 ∧ (length : Int) - p.length < size then
        if peek p ≠ '%'.toUInt8 then .literal (peek p) :: turnsFrom size length turns p.tail
        else
          let fmt := parseDirective p.tail
          .directive fmt :: turnsFrom size length turns fmt.p
      else []

def turnsOf (size : Int) (fmt : CString) : List Turn :=
  turnsFrom size fmt.chars.length (fmt.chars.length + 1) fmt.chars

/-- Turns carried out in order. -/
def play (args : Arguments) : List Turn → Locals → Trace PrintEvent Locals
  | [], s => .pure s
  | .literal c :: ts, s => .step (.cb c) (play args ts s)
  | .directive fmt :: ts, s => .step .directive ((directive args fmt s).bind (play args ts))

section Turns

variable {args : Arguments} {size : Int} {length : Nat}

theorem length_tail_lt {p : List UInt8} (h : peek p ≠ 0) : p.tail.length < p.length := by
  cases p with
  | nil => exact absurd rfl h
  | cons c p => exact Nat.lt_succ_self _

/-- Each turn leaves less of the format, so the bound of the loop is never
met. -/
theorem cnprintfLoop_play (turns : Nat) (p : List UInt8) (s : Locals) (h : p.length < turns) :
    cnprintfLoop args size length turns p s = play args (turnsFrom size length turns p) s := by
  induction turns generalizing p s with
  | zero => omega
  | succ turns ih =>
      unfold cnprintfLoop turnsFrom
      split_ifs with hmore hliteral
      · have hlt := length_tail_lt hmore.1
        rw [play, ih _ _ (by omega)]
      · have hlt := length_tail_lt hmore.1
        have hparse := (parseDirective_suffix p.tail).length_le
        dsimp only
        rw [play]
        congr 2
        funext s'
        exact ih _ _ (by omega)
      · rfl

/-- A larger bound lists the same turns. -/
theorem turnsFrom_extra (extra turns : Nat) (p : List UInt8) (h : p.length < turns) :
    turnsFrom size length (turns + extra) p = turnsFrom size length turns p := by
  induction turns generalizing p with
  | zero => omega
  | succ turns ih =>
      rw [Nat.add_right_comm]
      unfold turnsFrom
      split_ifs with hmore hliteral
      · have hlt := length_tail_lt hmore.1
        rw [ih _ (by omega)]
      · have hlt := length_tail_lt hmore.1
        have hparse := (parseDirective_suffix p.tail).length_le
        dsimp only
        rw [ih _ (by omega)]
      · rfl

theorem cnprintf_play (args : Arguments) (size : Int) (fmt : CString) (bf : Nat → UInt8) :
    cnprintf args size fmt bf = (play args (turnsOf size fmt) ⟨0, bf⟩).map fun _ => 0 := by
  unfold cnprintf turnsOf
  rw [cnprintfLoop_play _ _ _ (Nat.lt_succ_self _)]

/-- Every directive of the list comes from the parser. -/
theorem turnsFrom_parsed (turns : Nat) (p : List UInt8) (fmt : SFmt)
    (h : Turn.directive fmt ∈ turnsFrom size length turns p) : Parsed fmt := by
  induction turns generalizing p with
  | zero => cases h
  | succ turns ih =>
      unfold turnsFrom at h
      split_ifs at h
      · exact ih _ (by simpa using h)
      · rcases List.mem_cons.mp h with heq | hmem
        · cases heq
          exact parseDirective_parsed _
        · exact ih _ hmem
      · cases h

end Turns

end PascalScheduler
