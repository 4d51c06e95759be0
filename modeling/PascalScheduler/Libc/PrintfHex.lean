import PascalScheduler.Libc.PrintfCursor
import PascalScheduler.Libc.PrintfFormat

/-!
`%x` and `%lx`. The argument goes through `i2a` as an `int`, so a word with its
high bit set is printed as a negative number. Every other word is printed as the
numeral that a reader of hexadecimal literals takes back to it.
-/

namespace PascalScheduler.Cursor

/-- The value of a hexadecimal digit. -/
def hexDigit (c : UInt8) : Option Nat :=
  if '0'.toUInt8 ≤ c ∧ c ≤ '9'.toUInt8 then some (c - '0'.toUInt8).toNat
  else if 'A'.toUInt8 ≤ c ∧ c ≤ 'F'.toUInt8 then some (10 + (c - 'A'.toUInt8).toNat)
  else if 'a'.toUInt8 ≤ c ∧ c ≤ 'f'.toUInt8 then some (10 + (c - 'a'.toUInt8).toNat)
  else none

/-- Hexadecimal digits, after those whose value is `acc`. -/
def readDigits : Nat → List UInt8 → Option Nat
  | acc, [] => some acc
  | acc, c :: cs => (hexDigit c).bind fun d => readDigits (16 * acc + d) cs

/-- A hexadecimal literal: `0x` and at least one digit. -/
def readHex : List UInt8 → Option Nat
  | zero :: x :: c :: cs =>
      if [zero, x] = zeroX then readDigits 0 (c :: cs) else none
  | _ => none

/-- The text that `%x` should print for `v`. -/
structure PrintsHex (v : UInt32) (text : List UInt8) : Prop where
  text_eq : text = zeroX ++ numeral 16 v.toNat
  reads : readHex text = some v.toNat

/-- `%x` or `%lx` -/
def HexAt (bytes : Nat → UInt8) (c : Nat) : Prop :=
  bytes c = '%'.toUInt8 ∧
    (bytes (c + 1) = 'x'.toUInt8 ∨ bytes (c + 1) = 'l'.toUInt8 ∧ bytes (c + 2) = 'x'.toUInt8)

section Read

theorem hexDigit_digitByte {d : Nat} (h : d < 16) : hexDigit (digitByte d) = some d := by
  have hall : ∀ d < 16, hexDigit (digitByte d) = some d := by decide
  exact hall d h

theorem readDigits_map (acc : Nat) (ds : List Nat) (h : ∀ d ∈ ds, d < 16) :
    readDigits acc (ds.map digitByte) = some (ds.foldl (fun acc d => d + 16 * acc) acc) := by
  induction ds generalizing acc with
  | nil => rfl
  | cons d ds ih =>
      obtain ⟨hd, hds⟩ := List.forall_mem_cons.mp h
      rw [List.map_cons, readDigits, hexDigit_digitByte hd, Option.bind_some, ih _ hds,
        List.foldl_cons, Nat.add_comm d]

/-- The numeral is read back. -/
theorem readHex_numeral (n : Nat) : readHex (zeroX ++ numeral 16 n) = some n := by
  have hcanonical := Numeral.digits_canonical (by omega : 1 < 16) n
  have hfold : (Numeral.digits 16 n).foldl (fun acc d => d + 16 * acc) 0 = n := by
    rw [← List.foldr_reverse, ← Nat.cast_id (List.foldr _ _ _)]
    exact (Nat.ofDigits_eq_foldr 16 _).symm.trans hcanonical.value
  have hread : readDigits 0 (numeral 16 n) = some n := by
    rw [numeral, readDigits_map 0 _ hcanonical.below, hfold]
  have hcons : ∃ d rest, Numeral.digits 16 n = d :: rest := by
    rcases hcanonical.leading with h | ⟨d, rest, h, _⟩
    · exact ⟨0, [], h⟩
    · exact ⟨d, rest, h⟩
  obtain ⟨d, rest, hdigits⟩ := hcons
  rw [numeral, hdigits, List.map_cons] at hread ⊢
  exact hread

theorem digitByte_ne_minus {d : Nat} (h : d < 36) : digitByte d ≠ '-'.toUInt8 := by
  have hall : ∀ d < 36, digitByte d ≠ '-'.toUInt8 := by decide
  exact hall d h

/-- No numeral starts with a sign. -/
theorem numeral_ne_minus {base n : Nat} (hbase : 1 < base) (hle : base ≤ 36)
    (text : List UInt8) : numeral base n ≠ '-'.toUInt8 :: text := by
  intro heq
  have hmem : '-'.toUInt8 ∈ numeral base n := by
    rw [heq]
    exact List.mem_cons_self
  obtain ⟨d, hd, hminus⟩ := List.mem_map.mp hmem
  have hlt := Numeral.lt_of_mem_digits hbase hd
  exact digitByte_ne_minus (by omega) hminus

/-- What `i2a` writes is the hexadecimal numeral for the lower half of the
words. -/
theorem printsHex_signed_iff (v : UInt32) :
    PrintsHex v (zeroX ++ signedNumeral 16 v.toInt32.toInt) ↔ v.toNat < 2 ^ 31 := by
  have hsigned : v.toInt32.toInt = (v.toNat : Int).bmod (2 ^ 32) := by
    simp [Int32.toInt, BitVec.toInt_eq_toNat_bmod]
  have hlt := v.toNat_lt
  constructor
  · intro h
    by_contra hhigh
    have hneg : v.toInt32.toInt < 0 := by
      rw [hsigned, Int.bmod_def]
      split
      · omega
      · omega
    have htext := List.append_cancel_left h.text_eq
    rw [signedNumeral, if_pos hneg] at htext
    exact numeral_ne_minus (by omega) (by omega) _ htext.symm
  · intro hlow
    have hsame : v.toInt32.toInt = v.toNat := by
      rw [hsigned]
      exact Int.bmod_eq_of_le (by omega) (by omega)
    have htext : signedNumeral 16 v.toInt32.toInt = numeral 16 v.toNat := by
      rw [signedNumeral, hsame, if_neg (by omega), Int.natAbs_natCast]
    rw [htext]
    exact ⟨rfl, readHex_numeral _⟩

end Read

section Iteration

variable {args : Arguments} {size : Int} {f : Format} {limit : Nat}

/-- Each iteration of a run is a turn from where it starts. -/
theorem iteration_turn (hlimit : f.stop < limit) (turns p : Nat) (s : Locals) (hp : p ≤ f.stop)
    {c : Nat} {events : List CursorEvent}
    (hit : (c, events) ∈ iterations (cnprintfLoop args size f.bytes limit turns p s).events) :
    c < f.stop ∧ ∃ s', events = (turn args f.bytes limit c s').events := by
  induction turns generalizing p s with
  | zero => cases hit
  | succ turns ih =>
      by_cases hmore : f.bytes p ≠ 0 ∧ (p : Int) < size
      · have hlt := f.lt_stop hp hmore.1
        obtain ⟨n, hpos, hle, _, hnext⟩ := (turn_turned args hlt hlimit s).moved
        rw [cnprintfLoop_iterations hmore hlt hlimit] at hit
        rcases List.mem_cons.mp hit with heq | hmem
        · cases heq
          exact ⟨hlt, s, rfl⟩
        · cases hresult : (turn args f.bytes limit p s).result with
          | none =>
              rw [hresult] at hmem
              cases hmem
          | some next =>
              rw [hresult] at hmem
              have hq : next.1 = p + n := hnext _ _ hresult
              exact ih next.1 next.2 (by omega) hmem
      · rw [cnprintfLoop, if_neg hmore] at hit
        cases hit

/-- What the parser makes of `%x` and of `%lx`. -/
theorem parseDirective_hex {c : Nat} (hlt : c < f.stop) (h : HexAt f.bytes c) :
    ∃ length p, length ≠ LengthMod.ll ∧
      PascalScheduler.parseDirective (f.rest (c + 1)) = parsedItem length .x p := by
  rcases h.2 with hx | ⟨hl, hx⟩
  · have hone : c + 1 < f.stop := f.lt_stop hlt (by rw [hx]; decide)
    refine ⟨.none, f.rest (c + 2), by decide, ?_⟩
    rw [f.rest_lt hone, hx]
    exact parseDirective_item .none .x _
  · have hone : c + 1 < f.stop := f.lt_stop hlt (by rw [hl]; decide)
    have htwo : c + 2 < f.stop := f.lt_stop hone (by rw [hx]; decide)
    refine ⟨.l, f.rest (c + 3), by decide, ?_⟩
    rw [f.rest_lt hone, f.rest_lt htwo, hl, hx]
    exact parseDirective_item .l .x _

theorem zeroX_ne_zero : ∀ c ∈ zeroX, c ≠ 0 := by
  have hnot : 0 ∉ zeroX := by decide
  rintro c hc rfl
  exact hnot hc

/-- A turn on `%x` takes a word and prints it as the `int` that it is. -/
theorem turn_hex (args : Arguments) {c : Nat} (hlt : c < f.stop) (hlimit : f.stop < limit)
    (h : HexAt f.bytes c) (s : Locals) :
    argumentsIn (printsIn (turn args f.bytes limit c s).events) = [s.va] ∧
      sent (printsIn (turn args f.bytes limit c s).events) =
        zeroX ++ signedNumeral 16 (args.word s.va).toInt32.toInt := by
  obtain ⟨n, _, _, hturn⟩ := turn_directive args h.1 hlt hlimit s
  obtain ⟨length, p, hshort, hparse⟩ := parseDirective_hex hlt h
  have hnot : ¬ (Item.directive length .x).LongLong := fun hlong => hshort hlong.1
  have hparsed := parsedItem_parsed length .x p
  have hended : Ended args (parsedItem length .x p) s := .inl (parsedItem_ends hnot _)
  have htakes : (parsedItem length .x p).takesArgument := parsedItem_takes.mpr hnot
  have hlength : (parsedItem length .x p).length ≠ fmtLenLl := by
    change length.value ≠ fmtLenLl
    revert hshort
    cases length <;> decide
  have hshown : shownOf (parsedItem length .x p) (args.word s.va) =
      zeroX ++ signedNumeral 16 (args.word s.va).toInt32.toInt := by
    apply shownOf_number hlength (textOf_hex _ rfl)
    intro c hc
    rcases List.mem_append.mp hc with hzero | hdigit
    · exact zeroX_ne_zero c hzero
    · exact signedNumeral_ne_zero (by omega) (by omega) _ c hdigit
  have hprints : printsIn (turn args f.bytes limit c s).events =
      .directive :: (directive args (parsedItem length .x p) s).events := by
    rw [hturn, hparse]
    simp
  have hother : stringOf args (parsedItem length .x p) (args.word s.va) = [] :=
    stringOf_other _ args (by exact (by decide : fmtSpecX ≠ fmtSpecS))
  constructor
  · rw [hprints]
    change argumentsIn (directive args (parsedItem length .x p) s).events = [s.va]
    rw [directive_takes hparsed, if_pos htakes]
  · rw [hprints, sent_directive, (directive_ended hparsed hended).2.1, hother, hshown,
      List.nil_append]

/-- In every call, an iteration on `%x` or `%lx` takes one argument. It prints
`0x` and the hexadecimal numeral of the argument, which is read back as it, if
and only if the argument is below `2 ^ 31`. -/
theorem printf_hex_iff (args : Arguments) (size : Int) (f : Format) (bf : Nat → UInt8)
    (extra : Nat) {c : Nat} {events : List CursorEvent}
    (hit : (c, events) ∈
      iterations (cnprintf args size f.bytes (f.stop + 1 + extra) bf).events)
    (hhex : HexAt f.bytes c) :
    ∃ k, argumentsIn (printsIn events) = [k] ∧
      (PrintsHex (args.word k) (sent (printsIn events)) ↔ (args.word k).toNat < 2 ^ 31) := by
  have hlimit : f.stop < f.stop + 1 + extra := by omega
  obtain ⟨hlt, s, rfl⟩ := iteration_turn hlimit _ 0 _ (Nat.zero_le _) hit
  obtain ⟨htaken, hsent⟩ := turn_hex args hlt hlimit hhex s
  refine ⟨s.va, htaken, ?_⟩
  rw [hsent]
  exact printsHex_signed_iff _

/-- The format `%x`. -/
def hexFormat : Format where
  bytes c := ['%'.toUInt8, 'x'.toUInt8].getD c 0
  stop := 2
  nul := rfl
  noNul := by decide

def hexArguments (v : UInt32) : Arguments :=
  ⟨fun _ => v, fun _ => ⟨[], noNul_nil⟩⟩

theorem hexFormat_iterations (v : UInt32) :
    (0, (turn (hexArguments v) hexFormat.bytes 3 0 ⟨0, fun _ => 0⟩).events) ∈
      iterations (cnprintf (hexArguments v) 128 hexFormat.bytes 3 (fun _ => 0)).events := by
  have hmore : hexFormat.bytes 0 ≠ 0 ∧ ((0 : Nat) : Int) < 128 := by decide
  have hlimit : hexFormat.stop < 3 := by decide
  have hlt : 0 < hexFormat.stop := by decide
  rw [cnprintf, Trace.events_map, cnprintfLoop_iterations hmore hlt hlimit]
  exact List.mem_cons_self

/-- The largest word that is printed as it should be. -/
theorem printf_hex_iff_int_max :
    ∃ events k, (0, events) ∈ iterations
        (cnprintf (hexArguments 0x7FFFFFFF) 128 hexFormat.bytes 3 (fun _ => 0)).events ∧
      argumentsIn (printsIn events) = [k] ∧ PrintsHex 0x7FFFFFFF (sent (printsIn events)) := by
  have hit := hexFormat_iterations 0x7FFFFFFF
  obtain ⟨k, htaken, hprints⟩ := printf_hex_iff (hexArguments 0x7FFFFFFF) 128 hexFormat
    (fun _ => 0) 0 hit ⟨rfl, .inl rfl⟩
  have hlow : (0x7FFFFFFF : UInt32).toNat < 2 ^ 31 := by decide
  exact ⟨_, k, hit, htaken, hprints.mpr hlow⟩

/-- `%x` of `0xFFFFFFFF` prints `0x-1`. -/
theorem printf_hex_minus_one :
    sent (printsIn (cnprintf (hexArguments 0xFFFFFFFF) 128 hexFormat.bytes 3
        (fun _ => 0)).events) = "0x-1".toList.map Char.toUInt8 ∧
      ¬ ∀ (args : Arguments) (size : Int) (f : Format) (bf : Nat → UInt8) (extra c : Nat)
        (events : List CursorEvent),
        (c, events) ∈ iterations (cnprintf args size f.bytes (f.stop + 1 + extra) bf).events →
          HexAt f.bytes c → ∃ k, argumentsIn (printsIn events) = [k] ∧
            PrintsHex (args.word k) (sent (printsIn events)) := by
  refine ⟨by decide +kernel, ?_⟩
  intro hall
  obtain ⟨k, _, hprints⟩ := hall (hexArguments 0xFFFFFFFF) 128 hexFormat (fun _ => 0) 0 0 _
    (hexFormat_iterations 0xFFFFFFFF) ⟨rfl, .inl rfl⟩
  have htext := (turn_hex (hexArguments 0xFFFFFFFF) (by decide : 0 < hexFormat.stop)
    (by decide : hexFormat.stop < 3) ⟨rfl, .inl rfl⟩ ⟨0, fun _ => 0⟩).2
  have hhigh : ¬ (0xFFFFFFFF : UInt32).toNat < 2 ^ 31 := by decide
  rw [htext] at hprints
  exact hhigh ((printsHex_signed_iff _).mp hprints)

end Iteration

end PascalScheduler.Cursor
