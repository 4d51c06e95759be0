import PascalScheduler.Libc.PrintfDirective

/-!
What `cnprintf` sends of its uninitialised buffer. Every byte that is sent
should have been written for the directive at hand; that is so exactly when each
text without a NUL finds one behind it, left there by an earlier directive of
the call.
-/

namespace PascalScheduler

/-- Walk through the events with the bytes of `bf` that the current directive
has written: whatever is sent of `bf` is among them. -/
def FreshFrom (stored : List Nat) : List PrintEvent → Prop
  | [] => True
  | .directive :: es => FreshFrom [] es
  | .store i _ :: es => FreshFrom (i :: stored) es
  | .emit i _ :: es => i ∈ stored ∧ FreshFrom stored es
  | .argument _ :: es => FreshFrom stored es
  | .cb _ :: es => FreshFrom stored es

/-- Nothing of what `bf` held before shows in what is printed. -/
structure PrintsFresh (args : Arguments) (size : Int) (fmt : CString) : Prop where
  same : ∀ bf bf', sent (cnprintf args size fmt bf).events =
    sent (cnprintf args size fmt bf').events
  fresh : ∀ bf, FreshFrom [] (cnprintf args size fmt bf).events

/-- A directive with the word at its place in the argument list. -/
abbrev Entry := SFmt × UInt32

def Entry.text (e : Entry) : List UInt8 :=
  textOf e.1 e.2

/-- The directives with their words. -/
def entriesFrom (args : Arguments) : Nat → List Turn → List Entry
  | _, [] => []
  | va, .literal _ :: ts => entriesFrom args va ts
  | va, .directive fmt :: ts =>
      (fmt, args.word va) :: entriesFrom args (va + if fmt.takesArgument then 1 else 0) ts

def entriesOf (args : Arguments) (size : Int) (fmt : CString) : List Entry :=
  entriesFrom args 0 (turnsOf size fmt)

/-- Of the texts that reach byte `n` of `bf`, the last one has its NUL there. -/
def Cleared (before : List Entry) (n : Nat) : Prop :=
  ∃ front r back, before = front ++ r :: back ∧ r.text[n]? = some 0 ∧
    ∀ e ∈ back, e.text.length ≤ n

/-- `bf` after a list of directives. -/
def bufferAfter (before : List Entry) (bf : Nat → UInt8) : Nat → UInt8 :=
  before.foldl (fun bf e => overlay 0 e.text bf) bf

section Fresh

variable {stored : List Nat} {events more : List PrintEvent}

/-- The bytes that are written. -/
def storesIn (events : List PrintEvent) : List Nat :=
  events.filterMap fun
    | .store i _ => some i
    | _ => none

theorem mem_storesIn {i : Nat} : i ∈ storesIn events ↔ ∃ c, .store i c ∈ events := by
  unfold storesIn
  rw [List.mem_filterMap]
  constructor
  · rintro ⟨e, he, hi⟩
    cases e with
    | store j c =>
        obtain rfl := Option.some.inj hi
        exact ⟨c, he⟩
    | directive => cases hi
    | argument k => cases hi
    | cb c => cases hi
    | emit j c => cases hi
  · rintro ⟨c, hc⟩
    exact ⟨_, hc, rfl⟩

/-- Only which bytes were written matters, not in what order. -/
theorem freshFrom_congr {stored' : List Nat} (h : ∀ i, i ∈ stored ↔ i ∈ stored') :
    FreshFrom stored events ↔ FreshFrom stored' events := by
  induction events generalizing stored stored' with
  | nil => exact Iff.rfl
  | cons e es ih =>
      cases e with
      | directive => exact Iff.rfl
      | argument k => exact ih h
      | cb c => exact ih h
      | store i c =>
          apply ih
          intro j
          rw [List.mem_cons, List.mem_cons, h]
      | emit i c => exact and_congr (h i) (ih h)

/-- A conversion writes, and sends nothing of `bf`. -/
theorem freshFrom_conversion (h : ∀ e ∈ events, e ≠ .directive ∧ ∀ i c, e ≠ .emit i c) :
    FreshFrom stored (events ++ more) ↔ FreshFrom (storesIn events ++ stored) more := by
  induction events generalizing stored with
  | nil => exact Iff.rfl
  | cons e es ih =>
      obtain ⟨he, hes⟩ := List.forall_mem_cons.mp h
      cases e with
      | directive => exact absurd rfl he.1
      | argument k => exact ih hes
      | cb c => exact ih hes
      | store i c =>
          rw [List.cons_append, FreshFrom, ih hes]
          apply freshFrom_congr
          intro j
          have hcons : storesIn (.store i c :: es) = i :: storesIn es := rfl
          simp only [hcons, List.mem_append, List.mem_cons]
          tauto
      | emit i c => exact absurd rfl (he.2 i c)

theorem freshFrom_emits (h : ∀ e ∈ events, ∃ i c, e = .emit i c) :
    FreshFrom stored (events ++ more) ↔
      (∀ i c, .emit i c ∈ events → i ∈ stored) ∧ FreshFrom stored more := by
  induction events with
  | nil => simp
  | cons e es ih =>
      obtain ⟨⟨i, c, rfl⟩, hes⟩ := List.forall_mem_cons.mp h
      rw [List.cons_append, FreshFrom, ih hes]
      simp only [List.mem_cons, PrintEvent.emit.injEq]
      constructor
      · rintro ⟨hi, hrest, hmore⟩
        refine ⟨?_, hmore⟩
        rintro j d (⟨rfl, rfl⟩ | hmem)
        · exact hi
        · exact hrest j d hmem
      · rintro ⟨hall, hmore⟩
        exact ⟨hall i c (.inl ⟨rfl, rfl⟩), fun j d hmem => hall j d (.inr hmem), hmore⟩

end Fresh

section Play

variable {args : Arguments}

/-- A directive sends only what it has written if and only if its text ends. -/
theorem directive_fresh {fmt : SFmt} {s : Locals} (h : Parsed fmt) (more : List PrintEvent) :
    FreshFrom [] ((directive args fmt s).events ++ more) ↔
      Ended args fmt s ∧ FreshFrom (storesIn (convert args fmt s).events) more := by
  have hconverts : Converts args fmt s (convert args fmt s) := convert_converts h s
  have hwritten (i : Nat) : i ∈ storesIn (convert args fmt s).events ↔
      i < (textOf fmt (args.word s.va)).length := by
    rw [mem_storesIn, hconverts.stores]
  rw [directive_events h, List.append_assoc, freshFrom_conversion hconverts.silent,
    List.append_nil, freshFrom_emits sendBuffer_emits]
  have hsend (i : Nat) (c : UInt8) : .emit i c ∈ (directive args fmt s).events ↔
      .emit i c ∈ (sendBuffer (s.after args fmt).bf bfSize 0).events := by
    rw [directive_events h, List.mem_append]
    exact or_iff_right fun hmem => (hconverts.silent _ hmem).2 i c rfl
  constructor
  · rintro ⟨hfresh, hmore⟩
    refine ⟨?_, hmore⟩
    by_contra hopen
    obtain ⟨c, hc⟩ := directive_open h hopen
    have hlt := (hwritten _).mp (hfresh _ c ((hsend _ c).mp hc))
    exact Nat.lt_irrefl _ hlt
  · rintro ⟨hended, hmore⟩
    refine ⟨?_, hmore⟩
    intro i c hmem
    exact (hwritten i).mpr ((directive_ended h hended).2.2 i c ((hsend i c).mpr hmem))

/-- A run starts afresh with each directive. -/
theorem play_freshFrom (stored stored' : List Nat) (ts : List Turn) (s : Locals) :
    FreshFrom stored (play args ts s).events ↔ FreshFrom stored' (play args ts s).events := by
  induction ts generalizing s with
  | nil => exact Iff.rfl
  | cons t ts ih =>
      cases t with
      | literal c => exact ih s
      | directive fmt => exact Iff.rfl

/-- Every directive of the list finds the end of its text. -/
def AllEnded (args : Arguments) : List Turn → Locals → Prop
  | [], _ => True
  | .literal _ :: ts, s => AllEnded args ts s
  | .directive fmt :: ts, s => Ended args fmt s ∧ AllEnded args ts (s.after args fmt)

/-- What is then printed, by the format and the arguments alone. -/
def rendered (args : Arguments) : Nat → List Turn → List UInt8
  | _, [] => []
  | va, .literal c :: ts => c :: rendered args va ts
  | va, .directive fmt :: ts =>
      stringOf args fmt (args.word va) ++ shownOf fmt (args.word va) ++
        rendered args (va + if fmt.takesArgument then 1 else 0) ts

theorem play_rendered (ts : List Turn) (s : Locals)
    (hparsed : ∀ fmt, .directive fmt ∈ ts → Parsed fmt) (hended : AllEnded args ts s) :
    sent (play args ts s).events = rendered args s.va ts := by
  induction ts generalizing s with
  | nil => rfl
  | cons t ts ih =>
      have hrest : ∀ fmt, .directive fmt ∈ ts → Parsed fmt :=
        fun fmt h => hparsed fmt (List.mem_cons_of_mem _ h)
      cases t with
      | literal c => exact congrArg (c :: ·) (ih s hrest hended)
      | directive fmt =>
          obtain ⟨hresult, hsent, _⟩ := directive_ended (hparsed fmt List.mem_cons_self) hended.1
          rw [play, Trace.events_step, sent_directive, Trace.events_bind_some hresult, sent_append,
            hsent, ih _ hrest hended.2]
          rfl

theorem play_ends (ts : List Turn) (s : Locals)
    (hparsed : ∀ fmt, .directive fmt ∈ ts → Parsed fmt) (hended : AllEnded args ts s) :
    ∃ s', (play args ts s).result = some s' := by
  induction ts generalizing s with
  | nil => exact ⟨s, rfl⟩
  | cons t ts ih =>
      have hrest : ∀ fmt, .directive fmt ∈ ts → Parsed fmt :=
        fun fmt h => hparsed fmt (List.mem_cons_of_mem _ h)
      cases t with
      | literal c => exact ih s hrest hended
      | directive fmt =>
          have hresult := (directive_ended (hparsed fmt List.mem_cons_self) hended.1).1
          rw [play, Trace.result_step, Trace.result_bind, hresult, Option.bind_some]
          exact ih _ hrest hended.2

/-- A run sends only fresh bytes if and only if all its texts end. -/
theorem play_fresh_iff (ts : List Turn) (s : Locals)
    (hparsed : ∀ fmt, .directive fmt ∈ ts → Parsed fmt) :
    FreshFrom [] (play args ts s).events ↔ AllEnded args ts s := by
  induction ts generalizing s with
  | nil => exact Iff.rfl
  | cons t ts ih =>
      have hrest : ∀ fmt, .directive fmt ∈ ts → Parsed fmt :=
        fun fmt h => hparsed fmt (List.mem_cons_of_mem _ h)
      cases t with
      | literal c => exact ih s hrest
      | directive fmt =>
          have hfmt := hparsed fmt List.mem_cons_self
          rw [play, Trace.events_step, FreshFrom]
          by_cases hended : Ended args fmt s
          · rw [Trace.events_bind_some (directive_ended hfmt hended).1, directive_fresh hfmt,
              play_freshFrom _ [], ih _ hrest]
            rfl
          · obtain ⟨more, hmore⟩ := Trace.exists_events_bind (directive args fmt s) (play args ts)
            rw [hmore, directive_fresh hfmt]
            exact ⟨fun h => absurd h.1 hended, fun h => absurd h.1 hended⟩

end Play

section Entries

variable {args : Arguments}

/-- One more directive is over. -/
theorem bufferAfter_snoc (before : List Entry) (r : Entry) (bf : Nat → UInt8) :
    bufferAfter (before ++ [r]) bf = overlay 0 r.text (bufferAfter before bf) := by
  rw [bufferAfter, List.foldl_append]
  rfl

theorem cleared_snoc (before : List Entry) (r : Entry) (n : Nat) :
    Cleared (before ++ [r]) n ↔
      r.text[n]? = some 0 ∨ r.text.length ≤ n ∧ Cleared before n := by
  constructor
  · rintro ⟨front, last, back, heq, hzero, hback⟩
    rcases List.eq_nil_or_concat back with rfl | ⟨back, x, rfl⟩
    · obtain ⟨rfl, rfl⟩ := List.append_singleton_inj.mp heq
      exact .inl hzero
    · rw [List.concat_eq_append, ← List.cons_append, ← List.append_assoc] at heq
      obtain ⟨hfront, rfl⟩ := List.append_singleton_inj.mp heq
      refine .inr ⟨hback r (by simp), front, last, back, hfront, hzero, ?_⟩
      exact fun e he => hback e (by simp [he])
  · rintro (hzero | ⟨hshort, front, last, back, rfl, hzero, hback⟩)
    · exact ⟨before, r, [], rfl, hzero, nofun⟩
    · refine ⟨front, last, back ++ [r], by simp, hzero, ?_⟩
      intro e he
      rcases List.mem_append.mp he with hmem | hmem
      · exact hback e hmem
      · obtain rfl := List.mem_singleton.mp hmem
        exact hshort

/-- A byte is 0 whatever `bf` held before just when an earlier text has its NUL
there. -/
theorem bufferAfter_zero_iff (before : List Entry) (n : Nat) :
    (∀ bf, bufferAfter before bf n = 0) ↔ Cleared before n := by
  induction before using List.reverseRecOn with
  | nil =>
      constructor
      · intro hall
        exact absurd (hall fun _ => 1) (by decide : (1 : UInt8) ≠ 0)
      · rintro ⟨front, r, back, heq, _⟩
        exact absurd heq (by simp)
  | append_singleton before r ih =>
      simp only [bufferAfter_snoc, cleared_snoc]
      by_cases hlong : n < r.text.length
      · have hread (bf : Nat → UInt8) : overlay 0 r.text (bufferAfter before bf) n = r.text[n] :=
          overlay_start hlong
        simp [hread, List.getElem?_eq_getElem hlong, Nat.not_le.mpr hlong]
      · have hread (bf : Nat → UInt8) : overlay 0 r.text (bufferAfter before bf) n =
            bufferAfter before bf n := overlay_outside (by omega)
        simp [hread, ih, Nat.not_lt.mp hlong]

/-- The texts that end, by the list of the directives. -/
theorem allEnded_iff (ts : List Turn) (s : Locals) :
    AllEnded args ts s ↔ ∀ before e after, entriesFrom args s.va ts = before ++ e :: after →
      0 ∈ e.text ∨ bufferAfter before s.bf e.text.length = 0 := by
  induction ts generalizing s with
  | nil => simp [AllEnded, entriesFrom]
  | cons t ts ih =>
      cases t with
      | literal c => exact ih s
      | directive fmt =>
          rw [AllEnded, ih, entriesFrom]
          constructor
          · rintro ⟨hended, hrest⟩ before e after heq
            cases before with
            | nil =>
                obtain ⟨rfl, _⟩ := List.cons.inj heq
                exact hended
            | cons first before =>
                obtain ⟨rfl, htail⟩ := List.cons.inj heq
                exact hrest before e after htail
          · intro hall
            refine ⟨hall [] _ _ rfl, ?_⟩
            intro before e after heq
            exact hall (_ :: before) e after (by rw [List.cons_append, ← heq]; rfl)

theorem directive_mem_of_entry {va : Nat} {ts : List Turn} {e : Entry}
    (h : e ∈ entriesFrom args va ts) : .directive e.1 ∈ ts := by
  induction ts generalizing va with
  | nil => cases h
  | cons t ts ih =>
      cases t with
      | literal c => exact List.mem_cons_of_mem _ (ih h)
      | directive fmt =>
          rcases List.mem_cons.mp h with rfl | hmem
          · exact List.mem_cons_self
          · exact List.mem_cons_of_mem _ (ih hmem)

/-- `cnprintf` prints nothing that its buffer held before if and only if, for
every directive that writes a text without a NUL (no specifier that it knows, or
a number with `ll`), the last text of the call that reaches the byte after it
has its NUL there. -/
theorem printf_fresh_iff (args : Arguments) (size : Int) (fmt : CString) :
    PrintsFresh args size fmt ↔
      ∀ before e after, entriesOf args size fmt = before ++ e :: after →
        e.1.specifier = 0 ∨ e.1.longLong → Cleared before e.text.length := by
  have hparsed : ∀ f, .directive f ∈ turnsOf size fmt → Parsed f :=
    fun f h => turnsFrom_parsed _ _ f h
  have hfresh (bf : Nat → UInt8) : FreshFrom [] (cnprintf args size fmt bf).events ↔
      AllEnded args (turnsOf size fmt) ⟨0, bf⟩ := by
    rw [cnprintf_play, Trace.events_map]
    exact play_fresh_iff _ _ hparsed
  have hopen : ∀ before e after, entriesOf args size fmt = before ++ e :: after →
      (0 ∉ e.text ↔ e.1.specifier = 0 ∨ e.1.longLong) := by
    intro before e after heq
    have hmem : e ∈ entriesOf args size fmt := by
      rw [heq]
      simp
    exact textOf_open_iff e.2 (hparsed _ (directive_mem_of_entry hmem))
  constructor
  · intro h before e after heq hkind
    rw [← bufferAfter_zero_iff]
    intro bf
    have hended := (allEnded_iff _ _).mp ((hfresh bf).mp (h.fresh bf)) before e after heq
    exact hended.resolve_left ((hopen before e after heq).mpr hkind)
  · intro hcleared
    have hended (bf : Nat → UInt8) : AllEnded args (turnsOf size fmt) ⟨0, bf⟩ := by
      rw [allEnded_iff]
      intro before e after heq
      by_cases hnul : 0 ∈ e.text
      · exact .inl hnul
      · right
        have hclear := hcleared before e after heq ((hopen before e after heq).mp hnul)
        exact (bufferAfter_zero_iff _ _).mpr hclear bf
    constructor
    · intro bf bf'
      rw [cnprintf_play, cnprintf_play, Trace.events_map, Trace.events_map,
        play_rendered _ _ hparsed (hended bf), play_rendered _ _ hparsed (hended bf')]
    · exact fun bf => (hfresh bf).mpr (hended bf)

def percentFormat : CString := ⟨['%'.toUInt8, '%'.toUInt8], by decide +kernel⟩

def noArguments : Arguments := ⟨fun _ => 0, fun _ => ⟨[], noNul_nil⟩⟩

/-- The format `%%`: what the stack held is printed, twice. -/
theorem percent_prints_stack :
    sent (cnprintf noArguments 128 percentFormat (fun i => if i = 0 then 65 else 0)).events =
        [65, 65] ∧
      ¬ ∀ (args : Arguments) (size : Int) (fmt : CString), PrintsFresh args size fmt := by
  refine ⟨by decide, ?_⟩
  intro hall
  have hsame := (hall noArguments 128 percentFormat).same (fun _ => 0)
    (fun i => if i = 0 then 65 else 0)
  exact absurd hsame (by decide)

end Entries

end PascalScheduler
