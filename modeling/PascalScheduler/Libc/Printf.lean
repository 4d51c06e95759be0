import PascalScheduler.Library.Trace

/-!
`printf.c` with `strcpy.c`. A pointer into a string is the list of the
characters from it on, and reading at the end of the list reads the NUL. What
`cnprintf` does is recorded as events: the characters it passes to the callback,
the arguments it takes, and each byte that it writes to or sends from its local
buffer `bf`. `none` is a read past the end of `bf`.
-/

namespace PascalScheduler

/-- A string in memory: the characters before the NUL. -/
structure CString where
  chars : List UInt8
  noNul : ∀ c ∈ chars, c ≠ 0

theorem noNul_nil : ∀ c ∈ ([] : List UInt8), c ≠ 0 := by
  intro c hmem
  cases hmem

/-- `*p` -/
def peek (p : List UInt8) : UInt8 :=
  p.headD 0

/-- `strcpy`: what it writes from the destination on. It ends at the NUL of the
source and does not copy it. -/
def strcpy : List UInt8 → List UInt8
  | [] => []
  | c :: ds => if c = 0 then [] else c :: strcpy ds

def fmtFlagPlus : Nat := 1
def fmtFlagMinus : Nat := 2
def fmtFlagSpace : Nat := 4
def fmtFlagSharp : Nat := 8
def fmtFlagZero : Nat := 16

def fmtLenHh : Nat := 1
def fmtLenH : Nat := 2
def fmtLenL : Nat := 4
def fmtLenLl : Nat := 8

def fmtSpecI : Nat := 1
def fmtSpecU : Nat := 2
def fmtSpecC : Nat := 4
def fmtSpecS : Nat := 8
def fmtSpecX : Nat := 16

/-- `struct s_fmt` -/
structure SFmt where
  p : List UInt8
  flags : Nat
  width : Int32
  length : Nat
  specifier : Nat
  deriving DecidableEq

/-- The cases of the switch in `fmt_flags`. -/
def flagOf (c : UInt8) : Option Nat :=
  if c = '+'.toUInt8 then some fmtFlagPlus
  else if c = '-'.toUInt8 then some fmtFlagMinus
  else if c = ' '.toUInt8 then some fmtFlagSpace
  else if c = '#'.toUInt8 then some fmtFlagSharp
  else if c = '0'.toUInt8 then some fmtFlagZero
  else none

def fmtFlags (fmt : SFmt) : SFmt :=
  match flagOf (peek fmt.p) with
  | some flag => { fmt with flags := fmt.flags ||| flag, p := fmt.p.tail }
  | none => fmt

/-- The loop of `fmt_width`. -/
def widthLoop : List UInt8 → Int32 → List UInt8 × Int32
  | [], width => ([], width)
  | c :: p, width =>
      if c ≤ '9'.toUInt8 ∧ c ≥ '0'.toUInt8 then
        widthLoop p (width * 10 + Int32.ofNat (c - '0'.toUInt8).toNat)
      else (c :: p, width)

def fmtWidth (fmt : SFmt) : SFmt :=
  let (p, width) := widthLoop fmt.p 0
  { fmt with p := p, width := width }

def fmtLength (fmt : SFmt) : SFmt :=
  if peek fmt.p = 'h'.toUInt8 then
    let fmt := { fmt with p := fmt.p.tail }
    if peek fmt.p = 'h'.toUInt8 then
      { fmt with p := fmt.p.tail, length := fmt.length ||| fmtLenHh }
    else { fmt with length := fmt.length ||| fmtLenH }
  else if peek fmt.p = 'l'.toUInt8 then
    let fmt := { fmt with p := fmt.p.tail }
    if peek fmt.p = 'l'.toUInt8 then
      { fmt with p := fmt.p.tail, length := fmt.length ||| fmtLenLl }
    else { fmt with length := fmt.length ||| fmtLenL }
  else fmt

/-- The cases of the switch in `fmt_specifier`. -/
def specifierOf (c : UInt8) : Option Nat :=
  if c = 'i'.toUInt8 ∨ c = 'd'.toUInt8 then some fmtSpecI
  else if c = 'u'.toUInt8 then some fmtSpecU
  else if c = 'c'.toUInt8 then some fmtSpecC
  else if c = 's'.toUInt8 then some fmtSpecS
  else if c = 'x'.toUInt8 then some fmtSpecX
  else none

def fmtSpecifier (fmt : SFmt) : SFmt :=
  match specifierOf (peek fmt.p) with
  | some spec => { fmt with p := fmt.p.tail, specifier := fmt.specifier ||| spec }
  | none => fmt

/-- The four calls of `cnprintf` on the directive whose `%` is before `p`. -/
def parseDirective (p : List UInt8) : SFmt :=
  fmtSpecifier (fmtLength (fmtWidth (fmtFlags ⟨p, 0, 0, 0, 0⟩)))

section Numbers

/-- The first loop of `ui2a`. A divisor that needs more than 32 turns has
wrapped; dividing by zero is undefined. -/
def ui2aScale (num : UInt64) (base : UInt32) : Nat → UInt32 → Option UInt32
  | 0, _ => none
  | turns + 1, d =>
      if d = 0 then none
      else if num / d.toUInt64 ≥ base.toUInt64 then ui2aScale num base turns (d * base)
      else some d

/-- `dgt+(dgt<10 ? '0' : 'A'-10)` -/
def digitChar (dgt : Int32) : UInt8 :=
  (dgt + (if dgt < 10 then 48 else 65 - 10)).toUInt32.toUInt8

/-- The second loop of `ui2a` and the final NUL: what it writes from `bf` on. -/
def ui2aDigits (base : UInt32) : Nat → UInt64 → UInt32 → Int32 → Option (List UInt8)
  | 0, _, _, _ => none
  | turns + 1, num, d, n =>
      if d = 0 then some [0]
      else if base = 0 then none
      else
        let dgt := (num / d.toUInt64).toUInt32.toInt32
        let num := num - (dgt.toUInt32 * d).toUInt64
        let d := d / base
        if n ≠ 0 ∨ dgt > 0 ∨ d = 0 then
          (ui2aDigits base turns num d (n + 1)).map (fun bf => digitChar dgt :: bf)
        else ui2aDigits base turns num d n

/-- `ui2a`: the bytes that it writes from `bf` on. -/
def ui2a (num : UInt64) (base : UInt32) : Option (List UInt8) :=
  (ui2aScale num base 33 1).bind (fun d => ui2aDigits base 33 num d 0)

/-- `i2a` -/
def i2a (num : Int64) (base : UInt32) : Option (List UInt8) :=
  if num < 0 then (ui2a (-num).toUInt64 base).map (fun bf => '-'.toUInt8 :: bf)
  else ui2a num.toUInt64 base

end Numbers

/-- What a call is given after the format: the words of the argument list, and
the string at each address. -/
structure Arguments where
  word : Nat → UInt32
  string : UInt32 → CString

inductive PrintEvent where
  | directive                        -- a `%` is read
  | argument (k : Nat)               -- `va_arg` takes word `k`
  | store (i : Nat) (c : UInt8)      -- `bf[i] = c`
  | cb (c : UInt8)                   -- the callback gets a character of a string
  | emit (i : Nat) (c : UInt8)       -- the callback gets `bf[i]`
  deriving DecidableEq

/-- The position in the argument list, and the local buffer. -/
structure Locals where
  va : Nat
  bf : Nat → UInt8

section Convert

variable (args : Arguments)

/-- `va_arg`: `int`, `long`, their unsigned types and pointers are one word. -/
def vaArg (s : Locals) : Trace PrintEvent (UInt32 × Locals) :=
  .step (.argument s.va) (.pure (args.word s.va, { s with va := s.va + 1 }))

/-- Bytes written to `bf`, from `bf[i]` on. -/
def storeBytes : Nat → List UInt8 → Locals → Trace PrintEvent Locals
  | _, [], s => .pure s
  | i, c :: cs, s =>
      .step (.store i c) (storeBytes (i + 1) cs { s with bf := Function.update s.bf i c })

/-- The characters of a string argument, sent one by one. -/
def sendString : List UInt8 → Locals → Trace PrintEvent Locals
  | [], s => .pure s
  | c :: bp, s => .step (.cb c) (sendString bp s)

def nan : List UInt8 := strcpy ['N'.toUInt8, 'a'.toUInt8, 'N'.toUInt8]

def zeroX : List UInt8 := strcpy ['0'.toUInt8, 'x'.toUInt8]

/-- The tests on the length that the three number conversions share; `print`
gives the bytes that go to `bf + i`. -/
def convertNumber (fmt : SFmt) (print : UInt32 → Option (List UInt8)) (i : Nat) (s : Locals) :
    Trace PrintEvent Locals :=
  if fmt.length ≤ fmtLenH ∨ fmt.length = fmtLenL then
    (vaArg args s).bind fun (w, s) =>
      (Trace.lift (print w)).bind fun bytes => storeBytes i bytes s
  else if fmt.length = fmtLenLl then storeBytes 0 nan s
  else .pure s

/-- The switch on the specifier. -/
def convert (fmt : SFmt) (s : Locals) : Trace PrintEvent Locals :=
  if fmt.specifier = fmtSpecI then
    convertNumber args fmt (fun w => i2a w.toInt32.toInt64 10) 0 s
  else if fmt.specifier = fmtSpecU then
    convertNumber args fmt (fun w => ui2a w.toUInt64 10) 0 s
  else if fmt.specifier = fmtSpecC then
    (vaArg args s).bind fun (w, s) => storeBytes 0 [w.toUInt8, 0] s
  else if fmt.specifier = fmtSpecS then
    (storeBytes 0 [0] s).bind fun s =>
      (vaArg args s).bind fun (w, s) => sendString (args.string w).chars s
  else if fmt.specifier = fmtSpecX then
    (storeBytes 0 zeroX s).bind fun s =>
      convertNumber args fmt (fun w => i2a w.toInt32.toInt64 16) 2 s
  else .pure s

end Convert

/-- `bf` is sent up to its NUL, of which there should be one. -/
def sendBuffer (bf : Nat → UInt8) : Nat → Nat → Trace PrintEvent Unit
  | 0, _ => .lift none
  | left + 1, i =>
      if bf i = 0 then .pure () else .step (.emit i (bf i)) (sendBuffer bf left (i + 1))

def bfSize : Nat := 12

/-- A directive, once it is parsed. -/
def directive (args : Arguments) (fmt : SFmt) (s : Locals) : Trace PrintEvent Locals :=
  (convert args fmt s).bind fun s => (sendBuffer s.bf bfSize 0).map fun _ => s

/-- The loop of `cnprintf`; the format has `length` characters, and `turns` is a
bound for the turns left. -/
def cnprintfLoop (args : Arguments) (size : Int) (length : Nat) :
    Nat → List UInt8 → Locals → Trace PrintEvent Locals
  | 0, _, _ => .lift none
  | turns + 1, p, s =>
      if peek p ≠ 0 ∧ (length : Int) - p.length < size then
        if peek p ≠ '%'.toUInt8 then
          .step (.cb (peek p)) (cnprintfLoop args size length turns p.tail s)
        else
          let fmt := parseDirective p.tail
          .step .directive ((directive args fmt s).bind
            (cnprintfLoop args size length turns fmt.p))
      else .pure s

/-- `cnprintf`, with what the stack holds in place of `bf` when it starts. -/
def cnprintf (args : Arguments) (size : Int) (fmt : CString) (bf : Nat → UInt8) :
    Trace PrintEvent Int32 :=
  (cnprintfLoop args size fmt.chars.length (fmt.chars.length + 1) fmt.chars ⟨0, bf⟩).map
    fun _ => 0

/-- The characters that the callback gets. -/
def sent (events : List PrintEvent) : List UInt8 :=
  events.filterMap fun
    | .cb c => some c
    | .emit _ c => some c
    | _ => none

end PascalScheduler
