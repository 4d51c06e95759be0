import PascalScheduler.Libc.PrintfTurns

/-!
What one directive does: the argument that it takes, the text that it leaves in
`bf`, and what is sent of `bf` afterwards. The text is stated with the canonical
numerals, not with the loops that write it.
-/

namespace PascalScheduler

/-- Bytes laid over an array, from index `i` on. -/
def overlay (i : Nat) : List UInt8 → (Nat → UInt8) → Nat → UInt8
  | [], bf => bf
  | c :: cs, bf => overlay (i + 1) cs (Function.update bf i c)

/-- The events of writing bytes from `bf[i]` on. -/
def storeEvents (i : Nat) : List UInt8 → List PrintEvent
  | [] => []
  | c :: cs => .store i c :: storeEvents (i + 1) cs

namespace SFmt

/-- The three conversions that print a number. -/
def isNumber (fmt : SFmt) : Prop :=
  fmt.specifier = fmtSpecI ∨ fmt.specifier = fmtSpecU ∨ fmt.specifier = fmtSpecX

/-- A number with `ll`, for which a fixed text is printed. -/
def longLong (fmt : SFmt) : Prop :=
  fmt.isNumber ∧ fmt.length = fmtLenLl

def takesArgument (fmt : SFmt) : Prop :=
  fmt.specifier ≠ 0 ∧ ¬ fmt.longLong

instance (fmt : SFmt) : Decidable fmt.isNumber :=
  inferInstanceAs (Decidable (_ ∨ _))

instance (fmt : SFmt) : Decidable fmt.longLong :=
  inferInstanceAs (Decidable (_ ∧ _))

instance (fmt : SFmt) : Decidable fmt.takesArgument :=
  inferInstanceAs (Decidable (_ ∧ _))

end SFmt

/-- The bytes that a number leaves, with `ll` without a NUL. -/
def numberText (fmt : SFmt) (shown : List UInt8) : List UInt8 :=
  if fmt.length = fmtLenLl then nan else shown ++ [0]

/-- The bytes that a directive leaves in `bf`, from `bf[0]` on. -/
def textOf (fmt : SFmt) (w : UInt32) : List UInt8 :=
  if fmt.specifier = fmtSpecI then numberText fmt (signedNumeral 10 w.toInt32.toInt)
  else if fmt.specifier = fmtSpecU then numberText fmt (numeral 10 w.toNat)
  else if fmt.specifier = fmtSpecC then [w.toUInt8, 0]
  else if fmt.specifier = fmtSpecS then [0]
  else if fmt.specifier = fmtSpecX then
    numberText fmt (zeroX ++ signedNumeral 16 w.toInt32.toInt)
  else []

/-- The characters that a directive sends past `bf`. -/
def stringOf (args : Arguments) (fmt : SFmt) (w : UInt32) : List UInt8 :=
  if fmt.specifier = fmtSpecS then (args.string w).chars else []

/-- The words that are taken from the argument list. -/
def argumentsIn (events : List PrintEvent) : List Nat :=
  events.filterMap fun
    | .argument k => some k
    | _ => none

/-- What one conversion should do. -/
structure Converts (args : Arguments) (fmt : SFmt) (s : Locals)
    (x : Trace PrintEvent Locals) : Prop where
  result : x.result = some
    { va := s.va + if fmt.takesArgument then 1 else 0
      bf := overlay 0 (textOf fmt (args.word s.va)) s.bf }
  silent : ∀ e ∈ x.events, e ≠ .directive ∧ ∀ i c, e ≠ .emit i c
  sends : sent x.events = stringOf args fmt (args.word s.va)
  takes : argumentsIn x.events = if fmt.takesArgument then [s.va] else []
  stores : ∀ i, (∃ c, .store i c ∈ x.events) ↔ i < (textOf fmt (args.word s.va)).length

section Events

variable (e : PrintEvent) (events more : List PrintEvent)

@[simp] theorem sent_append : sent (events ++ more) = sent events ++ sent more :=
  List.filterMap_append

@[simp] theorem argumentsIn_append :
    argumentsIn (events ++ more) = argumentsIn events ++ argumentsIn more :=
  List.filterMap_append

@[simp] theorem sent_directive : sent (.directive :: events) = sent events := rfl

@[simp] theorem sent_argument (k : Nat) : sent (.argument k :: events) = sent events := rfl

@[simp] theorem sent_cb (c : UInt8) : sent (.cb c :: events) = c :: sent events := rfl

@[simp] theorem sent_emit (i : Nat) (c : UInt8) :
    sent (.emit i c :: events) = c :: sent events := rfl

@[simp] theorem argumentsIn_argument (k : Nat) :
    argumentsIn (.argument k :: events) = k :: argumentsIn events := rfl

theorem sent_map_cb (chars : List UInt8) : sent (chars.map .cb) = chars := by
  induction chars with
  | nil => rfl
  | cons c cs ih => rw [List.map_cons, sent_cb, ih]

theorem argumentsIn_map_cb (chars : List UInt8) : argumentsIn (chars.map .cb) = [] := by
  induction chars with
  | nil => rfl
  | cons c cs ih => exact ih

end Events

section Overlay

variable {i j : Nat} {bytes : List UInt8} {bf : Nat → UInt8}

theorem overlay_outside (h : j < i ∨ i + bytes.length ≤ j) : overlay i bytes bf j = bf j := by
  induction bytes generalizing i bf with
  | nil => rfl
  | cons c cs ih =>
      rw [List.length_cons] at h
      rw [overlay, ih (by omega), Function.update_of_ne (by omega)]

theorem overlay_inside (h : j < bytes.length) : overlay i bytes bf (i + j) = bytes[j] := by
  induction bytes generalizing i j bf with
  | nil => cases h
  | cons c cs ih =>
      rw [overlay]
      cases j with
      | zero =>
          rw [overlay_outside (by omega)]
          exact Function.update_self i c bf
      | succ j =>
          have hj : j < cs.length := Nat.lt_of_succ_lt_succ h
          have hlast : overlay (i + 1) cs (Function.update bf i c) (i + 1 + j) = cs[j] := ih hj
          rw [Nat.add_right_comm] at hlast
          exact hlast

theorem overlay_start (h : j < bytes.length) : overlay 0 bytes bf j = bytes[j] := by
  have hread : overlay 0 bytes bf (0 + j) = bytes[j] := overlay_inside h
  rwa [Nat.zero_add] at hread

theorem overlay_append (first second : List UInt8) :
    overlay i (first ++ second) bf =
      overlay (i + first.length) second (overlay i first bf) := by
  induction first generalizing i bf with
  | nil => rfl
  | cons c cs ih =>
      rw [List.cons_append, overlay, overlay, ih, List.length_cons, Nat.add_right_comm i 1,
        Nat.add_assoc i]

/-- A text hides a shorter one. -/
theorem overlay_overlay {first second : List UInt8} (h : first.length ≤ second.length) :
    overlay i second (overlay i first bf) = overlay i second bf := by
  funext j
  by_cases hin : i ≤ j ∧ j < i + second.length
  · obtain ⟨d, rfl⟩ := Nat.exists_eq_add_of_le hin.1
    rw [overlay_inside (by omega), overlay_inside (by omega)]
  · rw [overlay_outside (by omega), overlay_outside (by omega), overlay_outside (by omega)]

theorem storeBytes_eq (i : Nat) (bytes : List UInt8) (s : Locals) :
    storeBytes i bytes s = ⟨storeEvents i bytes, some { s with bf := overlay i bytes s.bf }⟩ := by
  induction bytes generalizing i s with
  | nil => rfl
  | cons c cs ih =>
      rw [storeBytes, ih]
      rfl

theorem mem_storeEvents {e : PrintEvent} :
    e ∈ storeEvents i bytes ↔ ∃ (k : Nat) (hk : k < bytes.length), e = .store (i + k) bytes[k] := by
  induction bytes generalizing i with
  | nil => simp [storeEvents]
  | cons c cs ih =>
      rw [storeEvents, List.mem_cons, ih]
      constructor
      · rintro (rfl | ⟨k, hk, rfl⟩)
        · exact ⟨0, Nat.succ_pos _, rfl⟩
        · exact ⟨k + 1, Nat.succ_lt_succ hk, by rw [Nat.add_assoc, Nat.add_comm 1 k]; rfl⟩
      · rintro ⟨k, hk, rfl⟩
        cases k with
        | zero => exact .inl rfl
        | succ k =>
            exact .inr ⟨k, Nat.lt_of_succ_lt_succ hk, by
              rw [Nat.add_assoc, Nat.add_comm 1 k]; rfl⟩

theorem stored_iff : (∃ c, .store j c ∈ storeEvents i bytes) ↔ i ≤ j ∧ j < i + bytes.length := by
  simp only [mem_storeEvents, PrintEvent.store.injEq]
  constructor
  · rintro ⟨c, k, hk, rfl, _⟩
    omega
  · rintro ⟨hle, hlt⟩
    exact ⟨bytes[j - i], j - i, by omega, by omega, rfl⟩

theorem storeEvents_silent : ∀ e ∈ storeEvents i bytes, e ≠ .directive ∧ ∀ k c, e ≠ .emit k c := by
  intro e he
  obtain ⟨k, hk, rfl⟩ := mem_storeEvents.mp he
  simp

theorem argument_silent (va : Nat) :
    ∀ e ∈ .argument va :: storeEvents i bytes, e ≠ .directive ∧ ∀ k c, e ≠ .emit k c := by
  intro e he
  rcases List.mem_cons.mp he with rfl | hmem
  · simp
  · exact storeEvents_silent e hmem

@[simp] theorem sent_storeEvents (i : Nat) (bytes : List UInt8) :
    sent (storeEvents i bytes) = [] := by
  induction bytes generalizing i with
  | nil => rfl
  | cons c cs ih => exact ih (i + 1)

@[simp] theorem argumentsIn_storeEvents (i : Nat) (bytes : List UInt8) :
    argumentsIn (storeEvents i bytes) = [] := by
  induction bytes generalizing i with
  | nil => rfl
  | cons c cs ih => exact ih (i + 1)

end Overlay

section Text

variable {fmt : SFmt} (w : UInt32)

theorem textOf_signed (h : fmt.specifier = fmtSpecI) :
    textOf fmt w = numberText fmt (signedNumeral 10 w.toInt32.toInt) :=
  if_pos h

theorem textOf_unsigned (h : fmt.specifier = fmtSpecU) :
    textOf fmt w = numberText fmt (numeral 10 w.toNat) := by
  simp [textOf, h, fmtSpecI, fmtSpecU]

theorem textOf_char (h : fmt.specifier = fmtSpecC) : textOf fmt w = [w.toUInt8, 0] := by
  simp [textOf, h, fmtSpecI, fmtSpecU, fmtSpecC]

theorem textOf_string (h : fmt.specifier = fmtSpecS) : textOf fmt w = [0] := by
  simp [textOf, h, fmtSpecI, fmtSpecU, fmtSpecC, fmtSpecS]

theorem textOf_hex (h : fmt.specifier = fmtSpecX) :
    textOf fmt w = numberText fmt (zeroX ++ signedNumeral 16 w.toInt32.toInt) := by
  simp [textOf, h, fmtSpecI, fmtSpecU, fmtSpecC, fmtSpecS, fmtSpecX]

theorem textOf_none (h : fmt.specifier = 0) : textOf fmt w = [] := by
  simp [textOf, h, fmtSpecI, fmtSpecU, fmtSpecC, fmtSpecS, fmtSpecX]

theorem stringOf_other (args : Arguments) (h : fmt.specifier ≠ fmtSpecS) :
    stringOf args fmt w = [] :=
  if_neg h

theorem takesArgument_number (h : fmt.isNumber) :
    fmt.takesArgument ↔ fmt.length ≠ fmtLenLl := by
  have hspec : fmt.specifier ≠ 0 := by
    rcases h with h | h | h <;> rw [h] <;> decide
  simp [SFmt.takesArgument, SFmt.longLong, h, hspec]

/-- `%c` and `%s` take a word whatever their length. -/
theorem takesArgument_text (h : fmt.specifier = fmtSpecC ∨ fmt.specifier = fmtSpecS) :
    fmt.takesArgument := by
  rcases h with h | h <;>
    simp [SFmt.takesArgument, SFmt.longLong, SFmt.isNumber, h, fmtSpecI, fmtSpecU, fmtSpecC,
      fmtSpecS, fmtSpecX]

theorem SFmt.isNumber.specifier_ne (h : fmt.isNumber) : fmt.specifier ≠ fmtSpecS := by
  rcases h with h | h | h <;> rw [h] <;> decide

end Text

section Convert

variable {args : Arguments} {fmt : SFmt} {s : Locals} {bytes : List UInt8}
  {print : UInt32 → Option (List UInt8)} {i : Nat}

theorem Parsed.short (h : Parsed fmt) (hlong : fmt.length ≠ fmtLenLl) :
    fmt.length ≤ fmtLenH ∨ fmt.length = fmtLenL := by
  rcases h.length with hlen | hlen | hlen | hlen | hlen
  · exact .inl (by rw [hlen]; decide)
  · exact .inl (by rw [hlen]; decide)
  · exact .inl (by rw [hlen])
  · exact .inr hlen
  · exact absurd hlen hlong

theorem sendString_eq (chars : List UInt8) (s : Locals) :
    sendString chars s = ⟨chars.map .cb, some s⟩ := by
  induction chars with
  | nil => rfl
  | cons c bp ih =>
      rw [sendString, ih]
      rfl

theorem vaArg_bind {β : Type} (f : UInt32 × Locals → Trace PrintEvent β) :
    (vaArg args s).bind f =
      .step (.argument s.va) (f (args.word s.va, { s with va := s.va + 1 })) := by
  rw [vaArg, Trace.step_bind, Trace.pure_bind]

/-- Without `ll` a number takes a word and prints it. -/
theorem convertNumber_short (h : fmt.length ≤ fmtLenH ∨ fmt.length = fmtLenL)
    (hprint : print (args.word s.va) = some bytes) :
    convertNumber args fmt print i s =
      ⟨.argument s.va :: storeEvents i bytes, some ⟨s.va + 1, overlay i bytes s.bf⟩⟩ := by
  rw [convertNumber, if_pos h, vaArg_bind]
  dsimp only
  rw [hprint, Trace.lift_some_bind, storeBytes_eq]
  rfl

theorem convertNumber_long (h : fmt.length = fmtLenLl) :
    convertNumber args fmt print i s =
      ⟨storeEvents 0 nan, some { s with bf := overlay 0 nan s.bf }⟩ := by
  have hnot : ¬ (fmt.length ≤ fmtLenH ∨ fmt.length = fmtLenL) := by
    rw [h]
    decide
  rw [convertNumber, if_neg hnot, if_pos h, storeBytes_eq]

/-- A number whose text starts at `bf[0]`. -/
theorem convertNumber_converts (hparsed : Parsed fmt) (hnumber : fmt.isNumber)
    {shown : List UInt8} (htext : textOf fmt (args.word s.va) = numberText fmt shown)
    (hprint : print (args.word s.va) = some (shown ++ [0])) :
    Converts args fmt s (convertNumber args fmt print 0 s) := by
  by_cases hlong : fmt.length = fmtLenLl
  · have htakes : ¬ fmt.takesArgument := by simp [takesArgument_number hnumber, hlong]
    rw [numberText, if_pos hlong] at htext
    rw [convertNumber_long hlong]
    constructor
    · rw [if_neg htakes, htext]
      rfl
    · exact storeEvents_silent
    · rw [stringOf_other _ args hnumber.specifier_ne, sent_storeEvents]
    · rw [if_neg htakes, argumentsIn_storeEvents]
    · intro k
      simp [stored_iff, htext]
  · have htakes : fmt.takesArgument := (takesArgument_number hnumber).mpr hlong
    rw [numberText, if_neg hlong] at htext
    rw [convertNumber_short (hparsed.short hlong) hprint]
    constructor
    · rw [if_pos htakes, htext]
    · exact argument_silent s.va
    · rw [stringOf_other _ args hnumber.specifier_ne]
      exact sent_storeEvents 0 _
    · rw [if_pos htakes]
      exact congrArg (s.va :: ·) (argumentsIn_storeEvents 0 _)
    · intro k
      simp [stored_iff, htext]

/-- `%x` first writes `0x`, and with `ll` writes over it. -/
theorem convert_hex (hparsed : Parsed fmt) (hspec : fmt.specifier = fmtSpecX) (s : Locals) :
    Converts args fmt s (convert args fmt s) := by
  have hnumber : fmt.isNumber := .inr (.inr hspec)
  have htext := textOf_hex (args.word s.va) hspec
  have hcode : convert args fmt s = (storeBytes 0 zeroX s).bind fun s =>
      convertNumber args fmt (fun w => i2a w.toInt32.toInt64 16) 2 s := by
    simp [convert, hspec, fmtSpecX, fmtSpecI, fmtSpecU, fmtSpecC, fmtSpecS]
  rw [hcode, storeBytes_eq, Trace.mk_some_bind]
  by_cases hlong : fmt.length = fmtLenLl
  · have htakes : ¬ fmt.takesArgument := by simp [takesArgument_number hnumber, hlong]
    have hcover : zeroX.length ≤ nan.length := by decide
    rw [numberText, if_pos hlong] at htext
    rw [convertNumber_long hlong]
    constructor
    · simp [htakes, htext, overlay_overlay hcover]
    · intro e he
      rcases List.mem_append.mp he with hmem | hmem
      · exact storeEvents_silent e hmem
      · exact storeEvents_silent e hmem
    · rw [stringOf_other _ args hnumber.specifier_ne]
      simp
    · simp [htakes]
    · intro k
      simp only [List.mem_append, exists_or, stored_iff, htext]
      omega
  · have htakes : fmt.takesArgument := (takesArgument_number hnumber).mpr hlong
    have hprint : i2a (args.word s.va).toInt32.toInt64 16 =
        some (signedNumeral 16 (args.word s.va).toInt32.toInt ++ [0]) :=
      i2a_numeral _ (by decide) (by decide)
    have htwo : zeroX.length = 2 := rfl
    rw [numberText, if_neg hlong, List.append_assoc] at htext
    rw [convertNumber_short (hparsed.short hlong) hprint]
    constructor
    · simp [htakes, htext, overlay_append, htwo]
    · intro e he
      rcases List.mem_append.mp he with hmem | hmem
      · exact storeEvents_silent e hmem
      · exact argument_silent s.va e hmem
    · rw [stringOf_other _ args hnumber.specifier_ne]
      simp
    · simp [htakes]
    · intro k
      simp only [List.mem_append, List.mem_cons, exists_or, stored_iff, htext, reduceCtorEq,
        false_or, List.length_append, htwo]
      omega

/-- A specifier that is not known writes nothing. -/
theorem convert_unknown (hspec : fmt.specifier = 0) (s : Locals) :
    Converts args fmt s (convert args fmt s) := by
  have htakes : ¬ fmt.takesArgument := by simp [SFmt.takesArgument, hspec]
  have hcode : convert args fmt s = .pure s := by
    simp [convert, hspec, fmtSpecX, fmtSpecI, fmtSpecU, fmtSpecC, fmtSpecS]
  rw [hcode]
  constructor
  · rw [if_neg htakes, textOf_none _ hspec]
    rfl
  · exact nofun
  · rw [stringOf_other _ args (by rw [hspec]; decide)]
    rfl
  · rw [if_neg htakes]
    rfl
  · simp [textOf_none _ hspec]

theorem convert_char (hspec : fmt.specifier = fmtSpecC) (s : Locals) :
    Converts args fmt s (convert args fmt s) := by
  have htakes := takesArgument_text (.inl hspec)
  have hcode : convert args fmt s =
      (vaArg args s).bind fun r => storeBytes 0 [r.1.toUInt8, 0] r.2 := by
    simp [convert, hspec, fmtSpecI, fmtSpecU, fmtSpecC]
  rw [hcode, vaArg_bind]
  dsimp only
  rw [storeBytes_eq]
  constructor
  · rw [if_pos htakes, textOf_char _ hspec]
    rfl
  · exact argument_silent s.va
  · rw [stringOf_other _ args (by rw [hspec]; decide)]
    rfl
  · rw [if_pos htakes]
    rfl
  · intro k
    simp [textOf_char _ hspec, stored_iff]

/-- `%s` passes its string to the callback and empties `bf`. -/
theorem convert_string (hspec : fmt.specifier = fmtSpecS) (s : Locals) :
    Converts args fmt s (convert args fmt s) := by
  have htakes := takesArgument_text (.inr hspec)
  have hcode : convert args fmt s = (storeBytes 0 [0] s).bind fun s =>
      (vaArg args s).bind fun r => sendString (args.string r.1).chars r.2 := by
    simp [convert, hspec, fmtSpecI, fmtSpecU, fmtSpecC, fmtSpecS]
  rw [hcode, storeBytes_eq, Trace.mk_some_bind, vaArg_bind]
  dsimp only
  rw [sendString_eq]
  constructor
  · rw [if_pos htakes, textOf_string _ hspec]
    rfl
  · intro e he
    rcases List.mem_append.mp he with hmem | hmem
    · exact storeEvents_silent e hmem
    · rcases List.mem_cons.mp hmem with rfl | hmem
      · simp
      · obtain ⟨c, _, rfl⟩ := List.mem_map.mp hmem
        simp
  · simp [stringOf, hspec, sent_map_cb]
  · simp [htakes, argumentsIn_map_cb]
  · intro k
    simp [textOf_string _ hspec, stored_iff]

/-- Every directive of the parser converts as `textOf` says. -/
theorem convert_converts (hparsed : Parsed fmt) (s : Locals) :
    Converts args fmt s (convert args fmt s) := by
  rcases hparsed.specifier with hspec | hspec | hspec | hspec | hspec | hspec
  · exact convert_unknown hspec s
  · have hcode : convert args fmt s =
        convertNumber args fmt (fun w => i2a w.toInt32.toInt64 10) 0 s := by
      rw [convert, if_pos hspec]
    rw [hcode]
    apply convertNumber_converts hparsed (.inl hspec) (textOf_signed _ hspec)
    exact i2a_numeral _ (by decide) (by decide)
  · have hcode : convert args fmt s =
        convertNumber args fmt (fun w => ui2a w.toUInt64 10) 0 s := by
      simp [convert, hspec, fmtSpecI, fmtSpecU]
    have hlt := (args.word s.va).toNat_lt
    rw [hcode]
    apply convertNumber_converts hparsed (.inr (.inl hspec)) (textOf_unsigned _ hspec)
    exact ui2a_numeral (by simpa using hlt) (by decide) (by decide)
  · exact convert_char hspec s
  · exact convert_string hspec s
  · exact convert_hex hparsed hspec s

end Convert

section Send

variable {bf : Nat → UInt8} {left i : Nat}

theorem sendBuffer_emits : ∀ e ∈ (sendBuffer bf left i).events, ∃ j c, e = .emit j c := by
  induction left generalizing i with
  | zero => exact nofun
  | succ left ih =>
      intro e he
      unfold sendBuffer at he
      split at he
      · cases he
      · rcases List.mem_cons.mp he with rfl | hmem
        · exact ⟨i, bf i, rfl⟩
        · exact ih e hmem

/-- Where a text with its NUL, or a text and a NUL after it, are in place, just
the text is sent. -/
theorem sendBuffer_text {t : List UInt8} (hread : ∀ j (h : j < t.length), bf (i + j) = t[j])
    (hend : 0 ∈ t ∨ bf (i + t.length) = 0) (hroom : t.length ≤ left)
    (hopen : 0 ∉ t → t.length < left) :
    (sendBuffer bf left i).result = some () ∧
      sent (sendBuffer bf left i).events = t.takeWhile (· ≠ 0) ∧
      ∀ j c, .emit j c ∈ (sendBuffer bf left i).events → i ≤ j ∧ j < i + t.length := by
  induction t generalizing left i with
  | nil =>
      have hzero : bf i = 0 := by simpa using hend
      obtain ⟨left, rfl⟩ := Nat.exists_eq_add_one.mpr (hopen List.not_mem_nil)
      rw [sendBuffer, if_pos hzero]
      exact ⟨rfl, rfl, nofun⟩
  | cons c cs ih =>
      have hfirst : bf i = c := hread 0 (Nat.succ_pos _)
      obtain ⟨left, rfl⟩ := Nat.exists_eq_add_one.mpr (Nat.lt_of_lt_of_le (Nat.succ_pos _) hroom)
      by_cases hzero : c = 0
      · rw [sendBuffer, if_pos (hfirst.trans hzero), List.takeWhile_cons_of_neg (by simp [hzero])]
        exact ⟨rfl, rfl, nofun⟩
      · have hshift (j : Nat) : i + 1 + j = i + (j + 1) := by omega
        have hread' : ∀ j (h : j < cs.length), bf (i + 1 + j) = cs[j] := by
          intro j h
          rw [hshift]
          exact hread (j + 1) (Nat.succ_lt_succ h)
        have hend' : 0 ∈ cs ∨ bf (i + 1 + cs.length) = 0 := by
          rw [hshift]
          exact hend.imp_left (fun h => (List.mem_cons.mp h).resolve_left (Ne.symm hzero))
        have hopen' : 0 ∉ cs → cs.length < left := by
          intro hnot
          have hlt := hopen (by simp [hnot, Ne.symm hzero])
          rw [List.length_cons] at hlt
          omega
        obtain ⟨hresult, hsent, hin⟩ := ih hread' hend' (Nat.le_of_succ_le_succ hroom) hopen'
        rw [sendBuffer, if_neg (by rw [hfirst]; exact hzero),
          List.takeWhile_cons_of_pos (by simp [hzero]), List.length_cons]
        refine ⟨hresult, ?_, ?_⟩
        · rw [Trace.events_step, sent_emit, hsent, hfirst]
        · intro j c' hmem
          rcases List.mem_cons.mp hmem with heq | hmem
          · cases heq
            omega
          · have hj := hin j c' hmem
            omega

/-- Otherwise the byte after the text is sent too. -/
theorem sendBuffer_beyond {n : Nat} (hn : n < left) (hnone : ∀ j, j ≤ n → bf (i + j) ≠ 0) :
    ∃ c, .emit (i + n) c ∈ (sendBuffer bf left i).events := by
  have hfirst : bf i ≠ 0 := hnone 0 (Nat.zero_le _)
  obtain ⟨left, rfl⟩ := Nat.exists_eq_add_one.mpr (Nat.lt_of_le_of_lt (Nat.zero_le n) hn)
  induction n generalizing left i with
  | zero =>
      rw [sendBuffer, if_neg hfirst]
      exact ⟨bf i, List.mem_cons_self⟩
  | succ n ih =>
      obtain ⟨left, rfl⟩ := Nat.exists_eq_add_one.mpr
        (Nat.lt_of_le_of_lt (Nat.zero_le n) (Nat.lt_of_succ_lt_succ hn))
      have hrest : ∀ j, j ≤ n → bf (i + 1 + j) ≠ 0 := by
        intro j hj
        rw [Nat.add_right_comm]
        exact hnone (j + 1) (by omega)
      obtain ⟨c, hc⟩ := ih hrest (hrest 0 (Nat.zero_le _)) left (by omega)
      rw [Nat.add_right_comm] at hc
      rw [sendBuffer, if_neg hfirst]
      exact ⟨c, List.mem_cons_of_mem _ hc⟩

end Send

section TextLength

variable {fmt : SFmt} (w : UInt32)

theorem numberText_open_iff {shown : List UInt8} :
    0 ∉ numberText fmt shown ↔ fmt.length = fmtLenLl := by
  have hnan : (0 : UInt8) ∉ nan := by decide
  by_cases hlong : fmt.length = fmtLenLl
  · simp [numberText, hlong, hnan]
  · simp [numberText, hlong]

/-- A number takes at most 11 characters. -/
theorem textOf_number (h : fmt.isNumber) :
    ∃ shown : List UInt8, shown.length ≤ 11 ∧ textOf fmt w = numberText fmt shown := by
  rcases h with h | h | h
  · exact ⟨_, length_signed_decimal w, textOf_signed w h⟩
  · exact ⟨_, (length_decimal w).trans (by decide), textOf_unsigned w h⟩
  · refine ⟨_, ?_, textOf_hex w h⟩
    have hle := length_signed_hex w
    have htwo : zeroX.length = 2 := rfl
    rw [List.length_append]
    omega

theorem Parsed.cases (h : Parsed fmt) : fmt.specifier = 0 ∨ fmt.isNumber ∨
    fmt.specifier = fmtSpecC ∨ fmt.specifier = fmtSpecS := by
  rcases h.specifier with h | h | h | h | h | h
  · exact .inl h
  · exact .inr (.inl (.inl h))
  · exact .inr (.inl (.inr (.inl h)))
  · exact .inr (.inr (.inl h))
  · exact .inr (.inr (.inr h))
  · exact .inr (.inl (.inr (.inr h)))

/-- The texts without a NUL: those of no conversion at all, and of `ll`. -/
theorem textOf_open_iff (h : Parsed fmt) :
    0 ∉ textOf fmt w ↔ fmt.specifier = 0 ∨ fmt.longLong := by
  rcases h.cases with hspec | hnumber | hspec | hspec
  · simp [textOf_none w hspec, hspec]
  · obtain ⟨shown, _, htext⟩ := textOf_number w hnumber
    have hspec : fmt.specifier ≠ 0 := by
      rcases hnumber with h | h | h <;> rw [h] <;> decide
    rw [htext, numberText_open_iff]
    simp [SFmt.longLong, hnumber, hspec]
  · have htakes := takesArgument_text (.inl hspec)
    simpa [textOf_char w hspec, SFmt.takesArgument] using htakes
  · have htakes := takesArgument_text (.inr hspec)
    simpa [textOf_string w hspec, SFmt.takesArgument] using htakes

/-- All texts fit, and those without a NUL leave room for one. -/
theorem length_textOf_le (h : Parsed fmt) : (textOf fmt w).length ≤ bfSize ∧
    (0 ∉ textOf fmt w → (textOf fmt w).length < bfSize) := by
  have hsize : bfSize = 12 := rfl
  rcases h.cases with hspec | hnumber | hspec | hspec
  · simp [textOf_none w hspec, hsize]
  · obtain ⟨shown, hle, htext⟩ := textOf_number w hnumber
    have hthree : nan.length = 3 := rfl
    rw [htext]
    by_cases hlong : fmt.length = fmtLenLl
    · rw [numberText, if_pos hlong]
      omega
    · refine ⟨?_, fun hopen => absurd (numberText_open_iff.mp hopen) hlong⟩
      rw [numberText, if_neg hlong, List.length_append, List.length_singleton]
      omega
  · simp [textOf_char w hspec, hsize]
  · simp [textOf_string w hspec, hsize]

end TextLength

/-- What is shown of a text: its characters before the NUL. -/
def shownOf (fmt : SFmt) (w : UInt32) : List UInt8 :=
  (textOf fmt w).takeWhile (· ≠ 0)

/-- The locals after a directive. -/
def Locals.after (args : Arguments) (fmt : SFmt) (s : Locals) : Locals where
  va := s.va + if fmt.takesArgument then 1 else 0
  bf := overlay 0 (textOf fmt (args.word s.va)) s.bf

section Directive

variable {args : Arguments} {fmt : SFmt} {s : Locals}

/-- The text of a directive ends in `bf`, by its own NUL or by one that was
there before. -/
def Ended (args : Arguments) (fmt : SFmt) (s : Locals) : Prop :=
  0 ∈ textOf fmt (args.word s.va) ∨ s.bf (textOf fmt (args.word s.va)).length = 0

/-- A directive is its conversion and then the sending of `bf`. -/
theorem directive_events (h : Parsed fmt) :
    (directive args fmt s).events = (convert args fmt s).events ++
      (sendBuffer (s.after args fmt).bf bfSize 0).events :=
  Trace.events_bind_some (convert_converts h s).result _

theorem directive_result (h : Parsed fmt) :
    (directive args fmt s).result =
      (sendBuffer (s.after args fmt).bf bfSize 0).result.map fun _ => s.after args fmt := by
  rw [directive, Trace.result_bind, (convert_converts h s).result]
  rfl

/-- A text that ends is sent, and nothing else of `bf`. -/
theorem directive_ended (h : Parsed fmt) (hended : Ended args fmt s) :
    (directive args fmt s).result = some (s.after args fmt) ∧
      sent (directive args fmt s).events =
        stringOf args fmt (args.word s.va) ++ shownOf fmt (args.word s.va) ∧
      ∀ j c, .emit j c ∈ (directive args fmt s).events →
        j < (textOf fmt (args.word s.va)).length := by
  have hconverts : Converts args fmt s (convert args fmt s) := convert_converts h s
  have hlength := length_textOf_le (args.word s.va) h
  have hread : ∀ j (hj : j < (textOf fmt (args.word s.va)).length),
      (s.after args fmt).bf (0 + j) = (textOf fmt (args.word s.va))[j] :=
    fun j hj => overlay_inside hj
  have hend : 0 ∈ textOf fmt (args.word s.va) ∨
      (s.after args fmt).bf (0 + (textOf fmt (args.word s.va)).length) = 0 := by
    refine hended.imp_right fun hzero => (overlay_outside (.inr (by omega))).trans ?_
    rw [Nat.zero_add]
    exact hzero
  obtain ⟨hresult, hsent, hin⟩ := sendBuffer_text hread hend hlength.1 hlength.2
  refine ⟨?_, ?_, ?_⟩
  · rw [directive_result h, hresult]
    rfl
  · rw [directive_events h, sent_append, hconverts.sends, hsent]
    rfl
  · intro j c hmem
    rw [directive_events h] at hmem
    rcases List.mem_append.mp hmem with hconv | hsend
    · exact absurd rfl ((hconverts.silent _ hconv).2 j c)
    · have hj := (hin j c hsend).2
      omega

/-- One that does not end takes the byte after it along. -/
theorem directive_open (h : Parsed fmt) (hopen : ¬ Ended args fmt s) :
    ∃ c, .emit (textOf fmt (args.word s.va)).length c ∈ (directive args fmt s).events := by
  rw [Ended, not_or] at hopen
  have hlength := length_textOf_le (args.word s.va) h
  have hnone : ∀ j, j ≤ (textOf fmt (args.word s.va)).length →
      (s.after args fmt).bf (0 + j) ≠ 0 := by
    intro j hj
    change overlay 0 _ s.bf (0 + j) ≠ 0
    rcases Nat.lt_or_eq_of_le hj with hlt | rfl
    · rw [overlay_inside hlt]
      intro hzero
      exact hopen.1 (hzero ▸ List.getElem_mem hlt)
    · rw [overlay_outside (by omega), Nat.zero_add]
      exact hopen.2
  obtain ⟨c, hc⟩ := sendBuffer_beyond (hlength.2 hopen.1) hnone
  rw [Nat.zero_add] at hc
  refine ⟨c, ?_⟩
  rw [directive_events h]
  exact List.mem_append_right _ hc

/-- Sending `bf` takes no word. -/
theorem directive_takes {fmt : SFmt} {s : Locals} (h : Parsed fmt) :
    argumentsIn (directive args fmt s).events = if fmt.takesArgument then [s.va] else [] := by
  have hsend : argumentsIn (sendBuffer (s.after args fmt).bf bfSize 0).events = [] := by
    rw [argumentsIn, List.filterMap_eq_nil_iff]
    intro e he
    obtain ⟨j, c, rfl⟩ := sendBuffer_emits e he
    rfl
  rw [directive_events h, argumentsIn_append, hsend, List.append_nil, (convert_converts h s).takes]

end Directive

end PascalScheduler
