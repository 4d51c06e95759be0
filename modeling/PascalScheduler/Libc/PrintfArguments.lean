import PascalScheduler.Libc.PrintfFormat

/-!
Which words of the argument list the directives of a format take. Each should
take one, so that the `k`-th directive gets word `k`; a number with `ll` prints a
fixed text and takes none.
-/

namespace PascalScheduler

/-- The words taken before the first directive, and those that each directive
takes. -/
def takenSplit : List PrintEvent → List Nat × List (List Nat)
  | [] => ([], [])
  | .directive :: es => ([], (takenSplit es).1 :: (takenSplit es).2)
  | .argument k :: es => (k :: (takenSplit es).1, (takenSplit es).2)
  | .store _ _ :: es => takenSplit es
  | .cb _ :: es => takenSplit es
  | .emit _ _ :: es => takenSplit es

/-- The words that each directive of a run takes. -/
def takenBy (events : List PrintEvent) : List (List Nat) :=
  (takenSplit events).2

/-- From word `va` on, each directive takes the next one. -/
def TakesInOrder (va : Nat) (taken : List (List Nat)) : Prop :=
  ∀ k ws, taken[k]? = some ws → ws = [va + k]

section Taken

variable {args : Arguments}

/-- A directive that has been read takes what is taken up to the next one. -/
theorem takenSplit_append {events : List PrintEvent} (more : List PrintEvent)
    (h : ∀ e ∈ events, e ≠ .directive) :
    takenSplit (events ++ more) =
      (argumentsIn events ++ (takenSplit more).1, (takenSplit more).2) := by
  induction events with
  | nil => rfl
  | cons e es ih =>
      obtain ⟨he, hes⟩ := List.forall_mem_cons.mp h
      cases e with
      | directive => exact absurd rfl he
      | argument k =>
          rw [List.cons_append, takenSplit, ih hes]
          rfl
      | store i c => exact ih hes
      | cb c => exact ih hes
      | emit i c => exact ih hes

/-- Literal characters take nothing. -/
theorem play_takes_first (ts : List Turn) (s : Locals) :
    (takenSplit (play args ts s).events).1 = [] := by
  induction ts generalizing s with
  | nil => rfl
  | cons t ts ih =>
      cases t with
      | literal c => exact ih s
      | directive fmt => rfl

theorem directive_not_mem {fmt : SFmt} {s : Locals} (h : Parsed fmt) :
    ∀ e ∈ (directive args fmt s).events, e ≠ .directive := by
  intro e he
  rw [directive_events h] at he
  rcases List.mem_append.mp he with hmem | hmem
  · exact ((convert_converts h s).silent e hmem).1
  · obtain ⟨j, c, rfl⟩ := sendBuffer_emits e hmem
    exact nofun

/-- The words that a run takes, directive by directive. -/
theorem play_takenBy {fmt : SFmt} (ts : List Turn) (s : Locals) (h : Parsed fmt) :
    ∃ rest, takenBy (play args (.directive fmt :: ts) s).events =
      (if fmt.takesArgument then [s.va] else []) :: rest ∧
        (Ended args fmt s → rest = takenBy (play args ts (s.after args fmt)).events) := by
  have hsplit (more : List PrintEvent) (hmore : (takenSplit more).1 = []) :
      takenSplit ((directive args fmt s).events ++ more) =
        (if fmt.takesArgument then [s.va] else [], takenBy more) := by
    rw [takenSplit_append more (directive_not_mem h), directive_takes h, hmore, List.append_nil]
    rfl
  cases hresult : (directive args fmt s).result with
  | none =>
      refine ⟨[], ?_, ?_⟩
      · have hcut := hsplit [] rfl
        rw [List.append_nil] at hcut
        rw [play, Trace.bind, hresult]
        change (takenSplit (directive args fmt s).events).1 ::
          (takenSplit (directive args fmt s).events).2 = _
        rw [hcut]
        rfl
      · intro hended
        rw [(directive_ended h hended).1] at hresult
        cases hresult
  | some s' =>
      refine ⟨takenBy (play args ts s').events, ?_, ?_⟩
      · rw [play, Trace.events_step, Trace.events_bind_some hresult, takenBy, takenSplit,
          hsplit _ (play_takes_first ts s')]
      · intro hended
        rw [(directive_ended h hended).1] at hresult
        rw [Option.some.inj hresult]

end Taken

section Items

variable {args : Arguments}

/-- A run takes its words in order if and only if it meets no number with
`ll`. -/
theorem itemTurns_takes_iff (size : Int) (offset : Nat) (items : List Item) (s : Locals) :
    TakesInOrder s.va (takenBy (play args (itemTurns size offset items) s).events) ↔
      ∀ item ∈ reached size offset items, ¬ item.LongLong := by
  induction items generalizing offset s with
  | nil => simp [TakesInOrder, itemTurns, play, reached, takenBy, takenSplit]
  | cons item items ih =>
      rw [itemTurns, reached]
      split
      · rw [List.forall_mem_cons]
        cases item with
        | literal c hzero hplain =>
            have hrest := ih (offset + (Item.literal c hzero hplain).chars.length) s
            rw [← hrest]
            exact ⟨fun h => ⟨id, h⟩, fun h => h.2⟩
        | directive length spec =>
            have hparsed := parsedItem_parsed length spec (items.flatMap Item.chars)
            let later := itemTurns size (offset + (Item.directive length spec).chars.length) items
            obtain ⟨rest, htaken, hrest⟩ := play_takenBy later s hparsed
            rw [Item.turn, htaken]
            by_cases hlong : (Item.directive length spec).LongLong
            · have htakes : ¬ (parsedItem length spec (items.flatMap Item.chars)).takesArgument :=
                fun h => parsedItem_takes.mp h hlong
              rw [if_neg htakes]
              constructor
              · intro horder
                exact absurd (horder 0 [] rfl) (by simp)
              · exact fun h => absurd hlong h.1
            · have htakes := parsedItem_takes (p := items.flatMap Item.chars).mpr hlong
              have hrest := hrest (.inl (parsedItem_ends hlong _))
              have hnext := ih (offset + (Item.directive length spec).chars.length)
                (s.after args (parsedItem length spec (items.flatMap Item.chars)))
              rw [← hrest, Locals.after, if_pos htakes] at hnext
              rw [if_pos htakes, ← hnext]
              constructor
              · intro horder
                refine ⟨hlong, ?_⟩
                intro k ws hk
                rw [horder (k + 1) ws hk, Nat.add_assoc, Nat.add_comm 1 k]
              · rintro ⟨_, horder⟩ k ws hk
                cases k with
                | zero => exact (Option.some.inj hk).symm
                | succ k =>
                    rw [horder k ws hk, Nat.add_assoc, Nat.add_comm 1 k]
      · simp [TakesInOrder, play, takenBy, takenSplit]

/-- Each directive takes one argument, the `k`-th one the `k`-th, if and only if
none of the directives that are reached is a number with `ll`. -/
theorem printf_arguments_iff (args : Arguments) (size : Int) (items : List Item)
    (bf : Nat → UInt8) :
    TakesInOrder 0 (takenBy (cnprintf args size (formatOf items) bf).events) ↔
      ∀ item ∈ reached size 0 items, ¬ item.LongLong := by
  rw [cnprintf_play, Trace.events_map, turnsOf_items]
  exact itemTurns_takes_iff size 0 items ⟨0, bf⟩

/-- In `%lld%d` the second directive takes the first argument. -/
theorem printf_arguments_shift :
    takenBy (cnprintf ⟨fun k => UInt32.ofNat k, fun _ => ⟨[], nofun⟩⟩ 128
        (formatOf [.directive .ll .d, .directive .none .d]) (fun _ => 0)).events = [[], [0]] ∧
      ¬ ∀ (args : Arguments) (size : Int) (items : List Item) (bf : Nat → UInt8),
        TakesInOrder 0 (takenBy (cnprintf args size (formatOf items) bf).events) := by
  have htaken : takenBy (cnprintf ⟨fun k => UInt32.ofNat k, fun _ => ⟨[], nofun⟩⟩ 128
      (formatOf [.directive .ll .d, .directive .none .d]) (fun _ => 0)).events = [[], [0]] := by
    decide
  refine ⟨htaken, ?_⟩
  intro hall
  have horder := hall ⟨fun k => UInt32.ofNat k, fun _ => ⟨[], nofun⟩⟩ 128
    [.directive .ll .d, .directive .none .d] (fun _ => 0)
  rw [htaken] at horder
  exact absurd (horder 0 [] rfl) (by decide)

end Items

end PascalScheduler
