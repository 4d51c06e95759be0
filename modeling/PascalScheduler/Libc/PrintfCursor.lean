import PascalScheduler.Libc.PrintfDirective

/-!
`cnprintf` on a format in memory. The cursor is an index, nothing is known of
the bytes behind the NUL, and each `p++` is recorded where it happens. The
parser makes the moves that the list model of `Printf.lean` makes, so both
print the same; on the way no move is made from the NUL on.
-/

namespace PascalScheduler.Cursor

/-- A format in memory: `stop` is the index of its NUL. -/
structure Format where
  bytes : Nat → UInt8
  stop : Nat
  nul : bytes stop = 0
  noNul : ∀ c < stop, bytes c ≠ 0

/-- `struct s_fmt`, with an index for the pointer. -/
structure SFmt where
  p : Nat
  flags : Nat
  width : Int32
  length : Nat
  specifier : Nat

inductive CursorEvent where
  | turn (c : Nat)            -- an iteration of `cnprintf` starts at `c`
  | advance (c : Nat)         -- `p++` at `c`
  | print (e : PrintEvent)

section Parser

variable (bytes : Nat → UInt8)

/-- `fmt->p++` -/
def advance (fmt : SFmt) : Trace CursorEvent SFmt :=
  .step (.advance fmt.p) (.pure { fmt with p := fmt.p + 1 })

def fmtFlags (fmt : SFmt) : Trace CursorEvent SFmt :=
  match flagOf (bytes fmt.p) with
  | some flag => advance { fmt with flags := fmt.flags ||| flag }
  | none => .pure fmt

/-- The loop of `fmt_width`. -/
def widthLoop : Nat → SFmt → Trace CursorEvent SFmt
  | 0, _ => .lift none
  | turns + 1, fmt =>
      if bytes fmt.p ≤ '9'.toUInt8 ∧ bytes fmt.p ≥ '0'.toUInt8 then
        let digit := Int32.ofNat (bytes fmt.p - '0'.toUInt8).toNat
        (advance { fmt with width := fmt.width * 10 + digit }).bind (widthLoop turns)
      else .pure fmt

def fmtWidth (limit : Nat) (fmt : SFmt) : Trace CursorEvent SFmt :=
  widthLoop bytes limit { fmt with width := 0 }

def fmtLength (fmt : SFmt) : Trace CursorEvent SFmt :=
  if bytes fmt.p = 'h'.toUInt8 then
    (advance fmt).bind fun fmt =>
      if bytes fmt.p = 'h'.toUInt8 then advance { fmt with length := fmt.length ||| fmtLenHh }
      else .pure { fmt with length := fmt.length ||| fmtLenH }
  else if bytes fmt.p = 'l'.toUInt8 then
    (advance fmt).bind fun fmt =>
      if bytes fmt.p = 'l'.toUInt8 then advance { fmt with length := fmt.length ||| fmtLenLl }
      else .pure { fmt with length := fmt.length ||| fmtLenL }
  else .pure fmt

def fmtSpecifier (fmt : SFmt) : Trace CursorEvent SFmt :=
  match specifierOf (bytes fmt.p) with
  | some spec => advance { fmt with specifier := fmt.specifier ||| spec }
  | none => .pure fmt

/-- The four calls on the directive whose `%` is before `p`. -/
def parseDirective (limit p : Nat) : Trace CursorEvent SFmt :=
  (((fmtFlags bytes ⟨p, 0, 0, 0, 0⟩).bind (fmtWidth bytes limit)).bind (fmtLength bytes)).bind
    (fmtSpecifier bytes)

end Parser

section Loop

variable (args : Arguments) (size : Int) (bytes : Nat → UInt8) (limit : Nat)

/-- The fields that `cnprintf` switches on. -/
def SFmt.fields (fmt : SFmt) : PascalScheduler.SFmt :=
  ⟨[], fmt.flags, fmt.width, fmt.length, fmt.specifier⟩

/-- What happens while a directive is carried out. -/
def printed {α : Type} (x : Trace PrintEvent α) : Trace CursorEvent α :=
  x.observe (List.map .print)

/-- One iteration, up to the next test of the loop. -/
def turn (p : Nat) (s : Locals) : Trace CursorEvent (Nat × Locals) :=
  if bytes p ≠ '%'.toUInt8 then
    .step (.print (.cb (bytes p))) (.step (.advance p) (.pure (p + 1, s)))
  else
    .step (.advance p) ((parseDirective bytes limit (p + 1)).bind fun fmt =>
      .step (.print .directive) ((printed (directive args fmt.fields s)).map fun s => (fmt.p, s)))

/-- The loop of `cnprintf`, with a bound for its turns. -/
def cnprintfLoop : Nat → Nat → Locals → Trace CursorEvent Locals
  | 0, _, _ => .lift none
  | turns + 1, p, s =>
      if bytes p ≠ 0 ∧ (p : Int) < size then
        .step (.turn p) ((turn args bytes limit p s).bind fun (p, s) => cnprintfLoop turns p s)
      else .pure s

/-- `cnprintf`; `limit` bounds its loops. -/
def cnprintf (bf : Nat → UInt8) : Trace CursorEvent Int32 :=
  (cnprintfLoop args size bytes limit limit 0 ⟨0, bf⟩).map fun _ => 0

end Loop

/-- The cursor positions that are stepped over. -/
def movedIn (events : List CursorEvent) : List Nat :=
  events.filterMap fun
    | .advance c => some c
    | _ => none

def printsIn (events : List CursorEvent) : List PrintEvent :=
  events.filterMap fun
    | .print e => some e
    | _ => none

/-- A write to `bf` is inside of it. -/
def CursorEvent.InBuffer : CursorEvent → Prop
  | .print (.store i _) => i < bfSize
  | _ => True

def turnStart : CursorEvent → Option Nat
  | .turn c => some c
  | _ => none

/-- The iterations of a run: where each one starts, and its events. -/
def iterations (events : List CursorEvent) : List (Nat × List CursorEvent) :=
  (Trace.cut turnStart events).2

/-- Iterations that start at `p`: each one steps over the characters from its
start on, at least one of them and none behind the last one; the next one goes
on where it ends. -/
structure Progress (stop p : Nat) (its : List (Nat × List CursorEvent)) : Prop where
  steps : ∀ it ∈ its, ∃ n, 0 < n ∧ it.1 + n ≤ stop ∧ movedIn it.2 = List.range' it.1 n
  joined : ∃ n, p + n ≤ stop ∧ its.flatMap (fun it => movedIn it.2) = List.range' p n
  count : its.length ≤ stop - p

namespace Format

variable (f : Format)

/-- The characters from an index on. -/
def rest (c : Nat) : List UInt8 :=
  (List.range' c (f.stop - c)).map f.bytes

/-- The format as a list of characters. -/
def string : CString where
  chars := f.rest 0
  noNul c hc := by
    obtain ⟨i, hi, rfl⟩ := List.mem_map.mp hc
    exact f.noNul i (by rw [List.mem_range'_1] at hi; omega)

theorem length_rest (c : Nat) : (f.rest c).length = f.stop - c := by
  simp [rest]

theorem rest_stop {c : Nat} (h : f.stop ≤ c) : f.rest c = [] := by
  simp [rest, Nat.sub_eq_zero_of_le h]

theorem rest_lt {c : Nat} (h : c < f.stop) : f.rest c = f.bytes c :: f.rest (c + 1) := by
  unfold rest
  obtain ⟨n, hn⟩ : ∃ n, f.stop - c = n + 1 := ⟨f.stop - c - 1, by omega⟩
  have hnext : f.stop - (c + 1) = n := by omega
  rw [hn, hnext, List.range'_succ, List.map_cons]

/-- The cursor reads what the list has. -/
theorem peek_rest {c : Nat} (h : c ≤ f.stop) : peek (f.rest c) = f.bytes c := by
  rcases Nat.lt_or_eq_of_le h with hlt | rfl
  · rw [f.rest_lt hlt]
    rfl
  · rw [f.rest_stop (Nat.le_refl _), f.nul]
    rfl

theorem tail_rest {c : Nat} (h : c < f.stop) : (f.rest c).tail = f.rest (c + 1) := by
  rw [f.rest_lt h]
  rfl

/-- A character that is not NUL is before the NUL. -/
theorem lt_stop {c : Nat} (hle : c ≤ f.stop) (h : f.bytes c ≠ 0) : c < f.stop := by
  rcases Nat.lt_or_eq_of_le hle with hlt | rfl
  · exact hlt
  · exact absurd f.nul h

end Format

/-- The record with the list that its cursor stands for. -/
def SFmt.listed (f : Format) (fmt : SFmt) : PascalScheduler.SFmt :=
  ⟨f.rest fmt.p, fmt.flags, fmt.width, fmt.length, fmt.specifier⟩

/-- A part of the parser that starts at `p`: it only moves, character by
character and not beyond the NUL, and it ends with what the list model gives. -/
def Follows (f : Format) (p : Nat) (x : Trace CursorEvent SFmt)
    (goal : PascalScheduler.SFmt) : Prop :=
  ∃ (n : Nat) (fmt : SFmt), x = ⟨(List.range' p n).map .advance, some fmt⟩ ∧
    fmt.p = p + n ∧ fmt.p ≤ f.stop ∧ fmt.listed f = goal

section Follows

variable {f : Format} {fmt : SFmt}

theorem follows_pure (fmt : SFmt) (h : fmt.p ≤ f.stop) :
    Follows f fmt.p (.pure fmt) (fmt.listed f) :=
  ⟨0, fmt, rfl, rfl, h, rfl⟩

theorem follows_advance (fmt : SFmt) (h : fmt.p < f.stop) :
    Follows f fmt.p (advance fmt)
      ⟨(f.rest fmt.p).tail, fmt.flags, fmt.width, fmt.length, fmt.specifier⟩ := by
  refine ⟨1, { fmt with p := fmt.p + 1 }, rfl, rfl, h, ?_⟩
  rw [f.tail_rest h]
  rfl

/-- One part after another. -/
theorem Follows.bind {p : Nat} {x : Trace CursorEvent SFmt} {g : SFmt → Trace CursorEvent SFmt}
    {mid goal : PascalScheduler.SFmt} (hx : Follows f p x mid)
    (hg : ∀ fmt : SFmt, fmt.p ≤ f.stop → fmt.listed f = mid → Follows f fmt.p (g fmt) goal) :
    Follows f p (x.bind g) goal := by
  obtain ⟨n, fmt, rfl, hp, hle, hmid⟩ := hx
  obtain ⟨m, fmt', hrun, hp', hle', hgoal⟩ := hg fmt hle hmid
  refine ⟨n + m, fmt', ?_, by omega, hle', hgoal⟩
  rw [Trace.mk_some_bind, hrun, hp, ← List.map_append, List.range'_append_1]

/-- A call of one of the four functions, after what has been parsed so far. -/
theorem Follows.call {p : Nat} {x : Trace CursorEvent SFmt} {g : SFmt → Trace CursorEvent SFmt}
    {mid : PascalScheduler.SFmt} {goal : PascalScheduler.SFmt → PascalScheduler.SFmt}
    (hx : Follows f p x mid)
    (hg : ∀ fmt : SFmt, fmt.p ≤ f.stop → Follows f fmt.p (g fmt) (goal (fmt.listed f))) :
    Follows f p (x.bind g) (goal mid) := by
  apply hx.bind
  intro fmt hle hfmt
  rw [← hfmt]
  exact hg fmt hle

theorem flagOf_nul : flagOf 0 = none := by
  decide

theorem specifierOf_nul : specifierOf 0 = none := by
  decide

/-- A switch on the character at the cursor, with a move in each case. The NUL
has no case. -/
theorem switch_follows {cases : UInt8 → Option Nat} (hnul : cases 0 = none) (mark : Nat → SFmt)
    (h : fmt.p ≤ f.stop) (hmark : ∀ k, (mark k).p = fmt.p) :
    Follows f fmt.p
      (match cases (f.bytes fmt.p) with
        | some k => advance (mark k)
        | none => .pure fmt)
      (match cases (peek (f.rest fmt.p)) with
        | some k => ⟨(f.rest fmt.p).tail, (mark k).flags, (mark k).width, (mark k).length,
            (mark k).specifier⟩
        | none => fmt.listed f) := by
  rw [f.peek_rest h]
  cases hcase : cases (f.bytes fmt.p) with
  | none => exact follows_pure _ h
  | some k =>
      have hne : f.bytes fmt.p ≠ 0 := by
        intro hzero
        rw [hzero, hnul] at hcase
        cases hcase
      have hadvance := follows_advance (f := f) (mark k) (by rw [hmark]; exact f.lt_stop h hne)
      rw [hmark] at hadvance
      exact hadvance

theorem fmtFlags_follows (fmt : SFmt) (h : fmt.p ≤ f.stop) :
    Follows f fmt.p (fmtFlags f.bytes fmt) (PascalScheduler.fmtFlags (fmt.listed f)) :=
  switch_follows flagOf_nul (fun flag => { fmt with flags := fmt.flags ||| flag }) h fun _ => rfl

theorem fmtSpecifier_follows (fmt : SFmt) (h : fmt.p ≤ f.stop) :
    Follows f fmt.p (fmtSpecifier f.bytes fmt) (PascalScheduler.fmtSpecifier (fmt.listed f)) :=
  switch_follows specifierOf_nul (fun spec => { fmt with specifier := fmt.specifier ||| spec }) h
    fun _ => rfl

/-- The digits end before the NUL, and so does the loop. -/
theorem widthLoop_follows (turns : Nat) (fmt : SFmt) (h : fmt.p ≤ f.stop)
    (hturns : f.stop - fmt.p < turns) :
    Follows f fmt.p (widthLoop f.bytes turns fmt)
      ⟨(PascalScheduler.widthLoop (f.rest fmt.p) fmt.width).1, fmt.flags,
        (PascalScheduler.widthLoop (f.rest fmt.p) fmt.width).2, fmt.length, fmt.specifier⟩ := by
  induction turns generalizing fmt with
  | zero => omega
  | succ turns ih =>
      unfold widthLoop
      rcases Nat.lt_or_eq_of_le h with hlt | hstop
      · have hlist := f.rest_lt hlt
        split
        · rename_i hdigit
          rw [hlist, PascalScheduler.widthLoop, if_pos hdigit, ← f.tail_rest hlt]
          let digit := Int32.ofNat (f.bytes fmt.p - '0'.toUInt8).toNat
          apply (follows_advance { fmt with width := fmt.width * 10 + digit } hlt).bind
          intro fmt' hle hfmt'
          simp only [SFmt.listed, PascalScheduler.SFmt.mk.injEq] at hfmt'
          obtain ⟨hp, hflags, hwidth, hlength, hspec⟩ := hfmt'
          have hleft := congrArg List.length hp
          rw [f.tail_rest hlt, f.length_rest, f.length_rest] at hleft
          rw [← hp, ← hwidth, ← hflags, ← hlength, ← hspec]
          exact ih fmt' hle (by omega)
        · rename_i hdigit
          rw [hlist, PascalScheduler.widthLoop, if_neg hdigit, ← hlist]
          exact follows_pure _ h
      · have hnul : f.bytes fmt.p = 0 := by rw [hstop, f.nul]
        have hlist : f.rest fmt.p = [] := f.rest_stop hstop.ge
        have hdigit : ¬ (f.bytes fmt.p ≤ '9'.toUInt8 ∧ f.bytes fmt.p ≥ '0'.toUInt8) := by
          rw [hnul]
          decide
        rw [if_neg hdigit, hlist, PascalScheduler.widthLoop, ← hlist]
        exact follows_pure _ h

theorem fmtWidth_follows {limit : Nat} (h : fmt.p ≤ f.stop) (hlimit : f.stop < limit) :
    Follows f fmt.p (fmtWidth f.bytes limit fmt) (PascalScheduler.fmtWidth (fmt.listed f)) :=
  widthLoop_follows limit { fmt with width := 0 } h (by omega)

/-- A letter of the length and, where it is there, the same letter again. -/
theorem letter_follows {c : UInt8} (hc : c ≠ 0) (one two : Nat) (h : fmt.p ≤ f.stop)
    (hfirst : f.bytes fmt.p = c) :
    Follows f fmt.p
      ((advance fmt).bind fun fmt =>
        if f.bytes fmt.p = c then advance { fmt with length := fmt.length ||| two }
        else .pure { fmt with length := fmt.length ||| one })
      (if peek (f.rest fmt.p).tail = c then
        ⟨(f.rest fmt.p).tail.tail, fmt.flags, fmt.width, fmt.length ||| two, fmt.specifier⟩
      else ⟨(f.rest fmt.p).tail, fmt.flags, fmt.width, fmt.length ||| one, fmt.specifier⟩) := by
  apply (follows_advance fmt (f.lt_stop h (by rw [hfirst]; exact hc))).bind
  intro fmt' hle hfmt'
  simp only [SFmt.listed, PascalScheduler.SFmt.mk.injEq] at hfmt'
  obtain ⟨hp, hflags, hwidth, hlength, hspec⟩ := hfmt'
  rw [← hp, ← hflags, ← hwidth, ← hlength, ← hspec, f.peek_rest hle]
  split
  · rename_i hagain
    apply follows_advance { fmt' with length := fmt'.length ||| two }
    exact f.lt_stop hle (by rw [hagain]; exact hc)
  · exact follows_pure { fmt' with length := fmt'.length ||| one } hle

theorem fmtLength_follows (h : fmt.p ≤ f.stop) :
    Follows f fmt.p (fmtLength f.bytes fmt) (PascalScheduler.fmtLength (fmt.listed f)) := by
  have hpeek : peek (fmt.listed f).p = f.bytes fmt.p := f.peek_rest h
  unfold fmtLength PascalScheduler.fmtLength
  rw [hpeek]
  split
  · rename_i hfirst
    exact letter_follows (by decide) fmtLenH fmtLenHh h hfirst
  · split
    · rename_i hfirst
      exact letter_follows (by decide) fmtLenL fmtLenLl h hfirst
    · exact follows_pure _ h

/-- The whole parser. -/
theorem parseDirective_follows {limit p : Nat} (h : p ≤ f.stop) (hlimit : f.stop < limit) :
    Follows f p (parseDirective f.bytes limit p) (PascalScheduler.parseDirective (f.rest p)) := by
  have hflags : Follows f p (fmtFlags f.bytes ⟨p, 0, 0, 0, 0⟩)
      (PascalScheduler.fmtFlags ⟨f.rest p, 0, 0, 0, 0⟩) :=
    fmtFlags_follows ⟨p, 0, 0, 0, 0⟩ h
  have hwidth := hflags.call fun _ hle => fmtWidth_follows hle hlimit
  have hlength := hwidth.call fun _ hle => fmtLength_follows hle
  exact hlength.call fun _ hle => fmtSpecifier_follows _ hle

end Follows

section Events

variable (events more : List CursorEvent) (cs : List Nat) (es : List PrintEvent)

@[simp] theorem movedIn_append : movedIn (events ++ more) = movedIn events ++ movedIn more :=
  List.filterMap_append

@[simp] theorem movedIn_advance (c : Nat) :
    movedIn (.advance c :: events) = c :: movedIn events := rfl

@[simp] theorem movedIn_print (e : PrintEvent) :
    movedIn (.print e :: events) = movedIn events := rfl

@[simp] theorem movedIn_map_advance : movedIn (cs.map .advance) = cs := by
  induction cs with
  | nil => rfl
  | cons c cs ih => rw [List.map_cons, movedIn_advance, ih]

@[simp] theorem movedIn_map_print : movedIn (es.map .print) = [] := by
  induction es with
  | nil => rfl
  | cons e es ih => exact ih

@[simp] theorem printsIn_append :
    printsIn (events ++ more) = printsIn events ++ printsIn more :=
  List.filterMap_append

@[simp] theorem printsIn_advance (c : Nat) :
    printsIn (.advance c :: events) = printsIn events := rfl

@[simp] theorem printsIn_print (e : PrintEvent) :
    printsIn (.print e :: events) = e :: printsIn events := rfl

@[simp] theorem printsIn_turn (c : Nat) : printsIn (.turn c :: events) = printsIn events := rfl

@[simp] theorem printsIn_map_advance : printsIn (cs.map .advance) = [] := by
  induction cs with
  | nil => rfl
  | cons c cs ih => exact ih

@[simp] theorem printsIn_map_print : printsIn (es.map .print) = es := by
  induction es with
  | nil => rfl
  | cons e es ih => rw [List.map_cons, printsIn_print, ih]

theorem iterations_turn (c : Nat) : iterations (.turn c :: events) =
    (c, (Trace.cut turnStart events).1) :: iterations events := by
  have hstart : turnStart (.turn c) = some c := rfl
  rw [iterations, Trace.cut_start hstart]
  rfl

end Events

section Turn

variable (args : Arguments) {f : Format} {limit p : Nat}

/-- A turn on a character that is not `%`. -/
theorem turn_literal (hplain : f.bytes p ≠ '%'.toUInt8) (s : Locals) :
    turn args f.bytes limit p s =
      ⟨[.print (.cb (f.bytes p)), .advance p], some (p + 1, s)⟩ := by
  rw [turn, if_pos hplain]
  rfl

/-- A turn on a directive: all moves come first, and the rest is what the list
model does with the parsed record. -/
theorem turn_directive (hpercent : f.bytes p = '%'.toUInt8) (hlt : p < f.stop)
    (hlimit : f.stop < limit) (s : Locals) :
    ∃ n, p + 1 + n ≤ f.stop ∧
      (PascalScheduler.parseDirective (f.rest (p + 1))).p = f.rest (p + 1 + n) ∧
      turn args f.bytes limit p s =
        ⟨.advance p :: ((List.range' (p + 1) n).map .advance ++ .print .directive ::
          (directive args (PascalScheduler.parseDirective (f.rest (p + 1))) s).events.map .print),
          (directive args (PascalScheduler.parseDirective (f.rest (p + 1))) s).result.map
            fun s => (p + 1 + n, s)⟩ := by
  obtain ⟨n, fmt, hrun, hp, hle, hgoal⟩ := parseDirective_follows hlt hlimit
  refine ⟨n, by omega, ?_, ?_⟩
  · rw [← hgoal, ← hp]
    rfl
  · rw [turn, if_neg (not_not_intro hpercent), hrun, Trace.mk_some_bind, ← hgoal, ← hp]
    rfl

/-- The writes of a directive are inside `bf`. -/
theorem directive_stores {fmt : PascalScheduler.SFmt} (h : Parsed fmt) (s : Locals) :
    ∀ e ∈ (directive args fmt s).events, CursorEvent.InBuffer (.print e) := by
  intro e he
  cases e with
  | store i c =>
      rw [directive_events h] at he
      rcases List.mem_append.mp he with hconvert | hsend
      · have hlt := ((convert_converts h s).stores i).mp ⟨c, hconvert⟩
        have hle := (length_textOf_le (args.word s.va) h).1
        exact Nat.lt_of_lt_of_le hlt hle
      · obtain ⟨j, d, hemit⟩ := sendBuffer_emits _ hsend
        cases hemit
  | directive => trivial
  | argument k => trivial
  | cb c => trivial
  | emit i c => trivial

/-- What one iteration from `p` does. -/
structure Turned (stop p : Nat) (x : Trace CursorEvent (Nat × Locals)) : Prop where
  quiet : ∀ e ∈ x.events, turnStart e = none
  moved : ∃ n, 0 < n ∧ p + n ≤ stop ∧ movedIn x.events = List.range' p n ∧
    ∀ q s, x.result = some (q, s) → q = p + n
  stores : x.All CursorEvent.InBuffer

theorem turn_turned (hlt : p < f.stop) (hlimit : f.stop < limit) (s : Locals) :
    Turned f.stop p (turn args f.bytes limit p s) := by
  by_cases hpercent : f.bytes p = '%'.toUInt8
  · obtain ⟨n, hle, _, hturn⟩ := turn_directive args hpercent hlt hlimit s
    rw [hturn]
    constructor
    · intro e he
      simp only [List.mem_cons, List.mem_append, List.mem_map] at he
      rcases he with rfl | ⟨c, _, rfl⟩ | rfl | ⟨e, _, rfl⟩ <;> rfl
    · refine ⟨n + 1, Nat.succ_pos n, by omega, ?_, ?_⟩
      · simp [List.range'_succ]
      · intro q s' hresult
        simp only [Option.map_eq_some_iff] at hresult
        obtain ⟨_, _, hq⟩ := hresult
        have hfirst := congrArg Prod.fst hq
        simp only at hfirst
        omega
    · intro e he
      simp only [List.mem_cons, List.mem_append, List.mem_map] at he
      rcases he with rfl | ⟨c, _, rfl⟩ | rfl | ⟨e, he, rfl⟩
      · trivial
      · trivial
      · trivial
      · exact directive_stores args (parseDirective_parsed _) s e he
  · rw [turn_literal args hpercent]
    constructor
    · intro e he
      simp only [List.mem_cons, List.not_mem_nil, or_false] at he
      rcases he with rfl | rfl <;> rfl
    · refine ⟨1, Nat.one_pos, hlt, rfl, ?_⟩
      intro q s' hresult
      exact (congrArg Prod.fst (Option.some.inj hresult)).symm
    · intro e he
      simp only [List.mem_cons, List.not_mem_nil, or_false] at he
      rcases he with rfl | rfl <;> trivial

end Turn

section Loop

variable {args : Arguments} {size : Int} {f : Format} {limit : Nat}

/-- A run starts with an iteration, or does nothing. -/
theorem cnprintfLoop_first (turns p : Nat) (s : Locals) :
    (Trace.cut turnStart (cnprintfLoop args size f.bytes limit turns p s).events).1 = [] := by
  cases turns with
  | zero => rfl
  | succ turns =>
      unfold cnprintfLoop
      split
      · rfl
      · rfl

/-- A run from `p`: one iteration, and the run from where it ends. -/
theorem cnprintfLoop_iterations {turns p : Nat} {s : Locals}
    (hmore : f.bytes p ≠ 0 ∧ (p : Int) < size) (hlt : p < f.stop) (hlimit : f.stop < limit) :
    iterations (cnprintfLoop args size f.bytes limit (turns + 1) p s).events =
      (p, (turn args f.bytes limit p s).events) ::
        match (turn args f.bytes limit p s).result with
        | none => []
        | some (q, s') => iterations (cnprintfLoop args size f.bytes limit turns q s').events := by
  have hquiet := (turn_turned args hlt hlimit s).quiet
  rw [cnprintfLoop, if_pos hmore, Trace.events_step, iterations_turn]
  cases hresult : (turn args f.bytes limit p s).result with
  | none =>
      have hcut := Trace.cut_append hquiet []
      rw [List.append_nil] at hcut
      rw [Trace.bind, hresult, iterations, hcut]
      simp [Trace.cut]
  | some next =>
      rw [Trace.events_bind_some hresult, iterations, Trace.cut_append hquiet,
        cnprintfLoop_first, List.append_nil]
      rfl

/-- Every run moves forward, and stops at the NUL. -/
theorem cnprintfLoop_progress (hlimit : f.stop < limit) (turns p : Nat) (s : Locals)
    (hp : p ≤ f.stop) : Progress f.stop p
      (iterations (cnprintfLoop args size f.bytes limit turns p s).events) := by
  have hnone : Progress f.stop p [] := ⟨nofun, ⟨0, hp, rfl⟩, Nat.zero_le _⟩
  induction turns generalizing p s with
  | zero => exact hnone
  | succ turns ih =>
      by_cases hmore : f.bytes p ≠ 0 ∧ (p : Int) < size
      · have hlt := f.lt_stop hp hmore.1
        obtain ⟨n, hpos, hle, hmoved, hnext⟩ := (turn_turned args hlt hlimit s).moved
        rw [cnprintfLoop_iterations hmore hlt hlimit]
        cases hresult : (turn args f.bytes limit p s).result with
        | none =>
            constructor
            · intro it hit
              obtain rfl := List.mem_singleton.mp hit
              exact ⟨n, hpos, hle, hmoved⟩
            · exact ⟨n, hle, by simp [hmoved]⟩
            · simp
              omega
        | some next =>
            obtain ⟨q, s'⟩ := next
            obtain rfl := hnext q s' hresult
            have hrest := ih (p + n) s' hle ⟨nofun, ⟨0, hle, rfl⟩, Nat.zero_le _⟩
            obtain ⟨m, hm, hjoined⟩ := hrest.joined
            have hcount := hrest.count
            constructor
            · intro it hit
              rcases List.mem_cons.mp hit with rfl | hmem
              · exact ⟨n, hpos, hle, hmoved⟩
              · exact hrest.steps it hmem
            · refine ⟨n + m, by omega, ?_⟩
              rw [List.flatMap_cons, hjoined, hmoved, List.range'_append_1]
            · simp only [List.length_cons]
              omega
      · rw [cnprintfLoop, if_neg hmore]
        exact hnone

theorem cnprintfLoop_stores (hlimit : f.stop < limit) (turns p : Nat) (s : Locals)
    (hp : p ≤ f.stop) :
    (cnprintfLoop args size f.bytes limit turns p s).All CursorEvent.InBuffer := by
  induction turns generalizing p s with
  | zero => exact nofun
  | succ turns ih =>
      unfold cnprintfLoop
      apply Trace.All.ite
      · intro hmore
        have hlt := f.lt_stop hp hmore.1
        have hturned := turn_turned args hlt hlimit s
        obtain ⟨n, hpos, hle, _, hnext⟩ := hturned.moved
        have hstart : (CursorEvent.turn p).InBuffer := trivial
        apply Trace.All.step hstart
        apply hturned.stores.bind
        intro next hresult
        have hq : next.1 = p + n := hnext _ _ hresult
        exact ih next.1 next.2 (by omega)
      · exact fun _ => Trace.All.pure s

/-- The run prints what the run of the list model prints. -/
theorem cnprintfLoop_prints (hlimit : f.stop < limit) (turns p : Nat) (s : Locals)
    (hp : p ≤ f.stop) :
    (cnprintfLoop args size f.bytes limit turns p s).observe printsIn =
      PascalScheduler.cnprintfLoop args size f.stop turns (f.rest p) s := by
  induction turns generalizing p s with
  | zero => rfl
  | succ turns ih =>
      have hplace : ((f.stop : Int) - (f.rest p).length < size) ↔ (p : Int) < size := by
        rw [f.length_rest]
        omega
      unfold cnprintfLoop PascalScheduler.cnprintfLoop
      rw [f.peek_rest hp]
      simp only [hplace]
      split_ifs with hmore hplain
      · have hlt := f.lt_stop hp hmore.1
        rw [turn_literal args hplain, f.tail_rest hlt, ← ih (p + 1) s hlt]
        rfl
      · have hlt := f.lt_stop hp hmore.1
        obtain ⟨n, hle, hrest, hturn⟩ := turn_directive args (not_not.mp hplain) hlt hlimit s
        rw [f.tail_rest hlt, hturn, hrest]
        generalize PascalScheduler.parseDirective (f.rest (p + 1)) = fmt
        cases hresult : (directive args fmt s).result with
        | none => simp [Trace.bind, Trace.observe, Trace.step, hresult]
        | some s' =>
            have hnext := ih (p + 1 + n) s' hle
            simp [Trace.bind, Trace.observe, Trace.step, hresult, ← hnext]
      · rfl

/-- On a format in memory `cnprintf` prints what it prints on the list of its
characters. -/
theorem cnprintf_prints (args : Arguments) (size : Int) (f : Format) (bf : Nat → UInt8)
    (extra : Nat) :
    (cnprintf args size f.bytes (f.stop + 1 + extra) bf).observe printsIn =
      PascalScheduler.cnprintf args size f.string bf := by
  have hlength : (f.rest 0).length = f.stop := f.length_rest 0
  have hloop : (cnprintfLoop args size f.bytes (f.stop + 1 + extra) (f.stop + 1 + extra) 0
      ⟨0, bf⟩).observe printsIn = play args (turnsOf size f.string) ⟨0, bf⟩ := by
    rw [cnprintfLoop_prints (by omega) _ 0 _ (Nat.zero_le _), cnprintfLoop_play _ _ _ (by omega),
      turnsFrom_extra extra _ _ (by omega), turnsOf]
    simp only [Format.string, hlength]
  rw [cnprintf_play, ← hloop]
  rfl

/-- For every format, size and argument list: each iteration of `cnprintf` moves
the cursor on, no iteration moves it beyond the NUL, there are no more of them
than characters, and every write to `bf` is to one of its 12 bytes. -/
theorem printf_progress (args : Arguments) (size : Int) (f : Format) (bf : Nat → UInt8)
    (extra : Nat) :
    let x := cnprintf args size f.bytes (f.stop + 1 + extra) bf
    x.observe printsIn = PascalScheduler.cnprintf args size f.string bf ∧
      Progress f.stop 0 (iterations x.events) ∧
      ∀ i c, .print (.store i c) ∈ x.events → i ≤ 11 := by
  intro x
  refine ⟨cnprintf_prints args size f bf extra, ?_, ?_⟩
  · exact cnprintfLoop_progress (by omega) _ 0 _ (Nat.zero_le _)
  · intro i c hmem
    have hstores : x.All CursorEvent.InBuffer :=
      cnprintfLoop_stores (by omega) _ 0 _ (Nat.zero_le _)
    have hlt : i < bfSize := hstores _ hmem
    exact Nat.le_of_lt_succ hlt

end Loop

end PascalScheduler.Cursor
