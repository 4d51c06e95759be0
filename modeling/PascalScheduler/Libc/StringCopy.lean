import PascalScheduler.Libc.PrintfDirective
import PascalScheduler.Dev.MmcRegisters

/-!
`strcpy.c` and `strncpy.c` on two objects in memory. The pointers are indices
into the source and the destination, every `*ds` that is evaluated and every
byte that is stored is recorded, and a bound is given for the turns of a loop.
What the loops store is what the list models of `Printf.lean` and
`MmcRegisters.lean` say.
-/

namespace PascalScheduler.StringCopy

/-- What the loops do in memory. -/
inductive Access where
  | read (k : Nat)                -- `*ds`
  | write (k : Nat) (c : UInt8)   -- `*dp = c`
  deriving DecidableEq

section Code

variable (source : Nat → UInt8)

/-- The loop of `strcpy`. -/
def strcpyLoop : Nat → Nat → Nat → (Nat → UInt8) → Trace Access (Nat → UInt8)
  | 0, _, _, _ => .lift none
  | turns + 1, dp, ds, destination =>
      .step (.read ds)
        (if source ds ≠ 0 then
          .step (.read ds) (.step (.write dp (source ds))
            (strcpyLoop turns (dp + 1) (ds + 1) (Function.update destination dp (source ds))))
        else .pure destination)

/-- `strcpy`: the destination when it returns. -/
def strcpy (limit : Nat) (destination : Nat → UInt8) : Trace Access (Nat → UInt8) :=
  strcpyLoop source limit 0 0 destination

/-- What the loops of `strncpy` share. -/
structure CopyState where
  dp : Nat
  i : UInt32
  destination : Nat → UInt8

/-- `*dp = c; dp++; i++` -/
def CopyState.put (s : CopyState) (c : UInt8) : CopyState :=
  ⟨s.dp + 1, s.i + 1, Function.update s.destination s.dp c⟩

@[simp] theorem CopyState.put_dp (s : CopyState) (c : UInt8) : (s.put c).dp = s.dp + 1 := rfl

@[simp] theorem CopyState.put_i (s : CopyState) (c : UInt8) : (s.put c).i = s.i + 1 := rfl

/-- The first loop of `strncpy`. -/
def copyLoop (num : UInt32) : Nat → Nat → CopyState → Trace Access CopyState
  | 0, _, _ => .lift none
  | turns + 1, ds, s =>
      .step (.read ds)
        (if source ds ≠ 0 then
          let next := s.put (source ds)
          .step (.read ds) (.step (.write s.dp (source ds))
            (if next.i ≥ num then .pure next else copyLoop num turns (ds + 1) next))
        else .pure s)

/-- The second loop of `strncpy`. -/
def fillLoop (num : UInt32) : Nat → CopyState → Trace Access (Nat → UInt8)
  | 0, _ => .lift none
  | turns + 1, s =>
      if s.i < num then
        .step (.write s.dp 0) (fillLoop num turns (s.put 0))
      else .pure s.destination

/-- `strncpy`: the destination when it returns. -/
def strncpy (num : UInt32) (limit : Nat) (destination : Nat → UInt8) :
    Trace Access (Nat → UInt8) :=
  if num = 0 then .pure destination
  else (copyLoop source num limit 0 ⟨0, 0, destination⟩).bind (fillLoop num limit)

end Code

/-- Memory that reads as a C string. -/
structure HoldsString (memory : Nat → UInt8) (s : CString) : Prop where
  chars : ∀ k (h : k < s.chars.length), memory k = s.chars[k]
  nul : memory s.chars.length = 0

/-- The string is copied, its NUL included, and nothing behind it changes. -/
structure CopiesString (s : CString) (before after : Nat → UInt8) : Prop where
  holds : HoldsString after s
  beyond : ∀ k, s.chars.length < k → after k = before k

/-- What `strncpy` should do: the characters before the first NUL of the source
are copied, zeros fill the rest of the `num` bytes, and nothing else is read or
written. The source need not be readable behind its NUL or its first `num`
bytes. -/
structure MeetsContract (source : Nat → UInt8) (num : Nat) (before after : Nat → UInt8)
    (events : List Access) : Prop where
  copied : ∀ k < num, (∀ j ≤ k, source j ≠ 0) → after k = source k
  filled : ∀ k < num, (∃ j ≤ k, source j = 0) → after k = 0
  beyond : ∀ k, num ≤ k → after k = before k
  reads : ∀ k, .read k ∈ events → k < num ∧ ∀ j < k, source j ≠ 0
  readable : ∀ size, (∃ j < size, source j = 0) ∨ num ≤ size →
    ∀ k, .read k ∈ events → k < size
  writes : ∀ k c, .write k c ∈ events → k < num

/-- Reads up to the NUL of a string, and writes before it. -/
def Access.BeforeNul (n : Nat) : Access → Prop
  | .read k => k ≤ n
  | .write k _ => k < n

/-- Reads and writes that `strncpy` may make. -/
def Access.Allowed (source : Nat → UInt8) (num : Nat) : Access → Prop
  | .read k => k < num ∧ ∀ j < k, source j ≠ 0
  | .write k _ => k < num

section Strcpy

variable {source : Nat → UInt8}

/-- From the characters that are left on, the loop stores them and no NUL. -/
theorem strcpyLoop_result (cs : List UInt8) (turns k : Nat) (destination : Nat → UInt8)
    (hturns : cs.length < turns) (hchars : ∀ j (h : j < cs.length), source (k + j) = cs[j])
    (hnul : source (k + cs.length) = 0) (hne : ∀ c ∈ cs, c ≠ 0) :
    (strcpyLoop source turns k k destination).result = some (overlay k cs destination) := by
  induction cs generalizing turns k destination with
  | nil =>
      obtain ⟨turns, rfl⟩ := Nat.exists_eq_add_one.mpr hturns
      have hend : ¬ source k ≠ 0 := not_not_intro hnul
      rw [strcpyLoop, if_neg hend]
      rfl
  | cons c cs ih =>
      obtain ⟨turns, rfl⟩ := Nat.exists_eq_add_one.mpr (Nat.zero_lt_of_lt hturns)
      obtain ⟨hc, hcs⟩ := List.forall_mem_cons.mp hne
      have hfirst : source k = c := hchars 0 (Nat.succ_pos _)
      have hmore : source k ≠ 0 := by
        rw [hfirst]
        exact hc
      have hshift (j : Nat) : k + 1 + j = k + (j + 1) := by omega
      simp only [List.length_cons] at hturns hnul
      rw [strcpyLoop, if_pos hmore, hfirst]
      simp only [Trace.result_step]
      apply ih
      · omega
      · intro j hj
        rw [hshift]
        exact hchars (j + 1) (Nat.succ_lt_succ hj)
      · rw [hshift]
        exact hnul
      · exact hcs

theorem strcpyLoop_accesses {n : Nat} (hnul : source n = 0) (turns k : Nat)
    (destination : Nat → UInt8) (hk : k ≤ n) :
    (strcpyLoop source turns k k destination).All (Access.BeforeNul n) := by
  induction turns generalizing k destination with
  | zero => exact nofun
  | succ turns ih =>
      have hread : (Access.read k).BeforeNul n := hk
      unfold strcpyLoop
      apply Trace.All.step hread
      apply Trace.All.ite
      · intro hmore
        have hlt : k < n := by
          apply Nat.lt_of_le_of_ne hk
          rintro rfl
          exact hmore hnul
        have hwrite : (Access.write k (source k)).BeforeNul n := hlt
        exact Trace.All.step hread (Trace.All.step hwrite (ih (k + 1) _ hlt))
      · exact fun _ => Trace.All.pure _

theorem strcpy_chars {cs : List UInt8} (h : ∀ c ∈ cs, c ≠ 0) : PascalScheduler.strcpy cs = cs := by
  induction cs with
  | nil => rfl
  | cons c cs ih =>
      obtain ⟨hc, hcs⟩ := List.forall_mem_cons.mp h
      rw [PascalScheduler.strcpy, if_neg hc, ih hcs]

/-- `strcpy` ends, and stores what the list model says: the characters. -/
theorem strcpy_result {s : CString} (hsource : HoldsString source s) (extra : Nat)
    (before : Nat → UInt8) :
    (strcpy source (s.chars.length + 1 + extra) before).result =
      some (overlay 0 (PascalScheduler.strcpy s.chars) before) := by
  rw [strcpy_chars s.noNul]
  apply strcpyLoop_result _ _ 0 _ (by omega)
  · intro j hj
    rw [Nat.zero_add]
    exact hsource.chars j hj
  · rw [Nat.zero_add]
    exact hsource.nul
  · exact s.noNul

/-- `strcpy` stays in both strings. -/
theorem strcpy_accesses {s : CString} (hsource : HoldsString source s) (limit : Nat)
    (before : Nat → UInt8) :
    (strcpy source limit before).All (Access.BeforeNul s.chars.length) :=
  strcpyLoop_accesses hsource.nul limit 0 before (Nat.zero_le _)

/-- The destination holds the string afterwards, and is unchanged behind it, if
and only if it held a NUL at the place of the NUL before. -/
theorem copiesString_iff (s : CString) (before : Nat → UInt8) :
    CopiesString s before (overlay 0 s.chars before) ↔ before s.chars.length = 0 := by
  have houtside : ∀ k, s.chars.length ≤ k → overlay 0 s.chars before k = before k :=
    fun k hk => overlay_outside (.inr (by omega))
  constructor
  · intro h
    have hnul := h.holds.nul
    rwa [houtside _ (Nat.le_refl _)] at hnul
  · intro hnul
    refine ⟨⟨fun k hk => overlay_start hk, ?_⟩, fun k hk => houtside k (Nat.le_of_lt hk)⟩
    rw [houtside _ (Nat.le_refl _)]
    exact hnul

/-- `strcpy` copies a string if and only if the destination has a NUL where the
one of the source belongs. -/
theorem strcpy_copies_iff (s : CString) (source before : Nat → UInt8) (extra : Nat)
    (hsource : HoldsString source s) :
    (∃ after, (strcpy source (s.chars.length + 1 + extra) before).result = some after ∧
      CopiesString s before after) ↔ before s.chars.length = 0 := by
  rw [strcpy_result hsource, strcpy_chars s.noNul, ← copiesString_iff]
  simp

/-- The text that `printf.c` copies for a number with `ll`. -/
def nanString : CString := ⟨['N'.toUInt8, 'a'.toUInt8, 'N'.toUInt8], by decide +kernel⟩

def nanSource (k : Nat) : UInt8 := nanString.chars.getD k 0

theorem nanSource_holds : HoldsString nanSource nanString := by
  constructor
  · intro k hk
    simp [nanSource, hk]
  · rfl

/-- Into a zeroed buffer the string arrives. -/
theorem strcpy_copies_iff_zeroed :
    ∃ after, (strcpy nanSource 4 (fun _ => 0)).result = some after ∧
      CopiesString nanString (fun _ => 0) after :=
  (strcpy_copies_iff nanString nanSource (fun _ => 0) 0 nanSource_holds).mpr rfl

/-- The buffer after `4294967295` was printed. -/
def earlierOutput (k : Nat) : UInt8 :=
  ("4294967295".toList.map Char.toUInt8).getD k 0

/-- Into the buffer of earlier output no NUL comes: it then reads
`NaN4967295`. -/
theorem strcpy_keeps_tail :
    (strcpy nanSource 4 earlierOutput).result.map (fun after => (List.range 11).map after) =
        some ("NaN4967295".toList.map Char.toUInt8 ++ [0]) ∧
      ¬ ∀ (s : CString) (source before : Nat → UInt8), HoldsString source s →
        ∃ after, (strcpy source (s.chars.length + 1) before).result = some after ∧
          CopiesString s before after := by
  have hread : (strcpy nanSource 4 earlierOutput).result.map
      (fun after => (List.range 11).map after) =
        some ("NaN4967295".toList.map Char.toUInt8 ++ [0]) := by
    decide +kernel
  refine ⟨hread, ?_⟩
  intro hall
  obtain ⟨after, hresult, hcopies⟩ := hall nanString nanSource earlierOutput nanSource_holds
  have hnul : after 3 = 0 := hcopies.holds.nul
  have hresult : (strcpy nanSource 4 earlierOutput).result = some after := hresult
  rw [hresult, Option.map_some] at hread
  have hthird := congrArg (fun bytes => bytes.getD 3 0) (Option.some.inj hread)
  rw [show ((List.range 11).map after).getD 3 0 = after 3 from rfl, hnul] at hthird
  exact absurd hthird (by decide)

end Strcpy

/-- A run that stores bytes from byte `k` on, and makes no other access than
`strncpy` may. -/
structure Stores (source : Nat → UInt8) (num k : Nat) (bytes : List UInt8)
    (before : Nat → UInt8) (x : Trace Access (Nat → UInt8)) : Prop where
  result : x.result = some (overlay k bytes before)
  accesses : x.All (Access.Allowed source num)

section Strncpy

variable {source : Nat → UInt8} {num : UInt32} {s : CopyState}

/-- The counter goes on with the pointer, and does not wrap. -/
theorem put_counter (hplace : s.i.toNat = s.dp) (hlt : s.dp < num.toNat) (c : UInt8) :
    (s.put c).i.toNat = (s.put c).dp := by
  have hsize := num.toNat_lt
  rw [CopyState.put_i, CopyState.put_dp, UInt32.toNat_add, hplace]
  exact Nat.mod_eq_of_lt (by simp; omega)

/-- The second loop stores zeros up to byte `num`. -/
theorem fillLoop_stores (m turns : Nat) (s : CopyState) (hplace : s.i.toNat = s.dp)
    (hleft : s.dp + m = num.toNat) (hturns : m < turns) :
    Stores source num.toNat s.dp (List.replicate m 0) s.destination (fillLoop num turns s) := by
  induction m generalizing turns s with
  | zero =>
      obtain ⟨turns, rfl⟩ := Nat.exists_eq_add_one.mpr hturns
      have hdone : ¬ s.i < num := by
        rw [UInt32.lt_iff_toNat_lt]
        omega
      rw [fillLoop, if_neg hdone]
      exact ⟨rfl, Trace.All.pure _⟩
  | succ m ih =>
      obtain ⟨turns, rfl⟩ := Nat.exists_eq_add_one.mpr (Nat.zero_lt_of_lt hturns)
      have hlt : s.dp < num.toNat := by omega
      have hmore : s.i < num := by
        rw [UInt32.lt_iff_toNat_lt, hplace]
        exact hlt
      have hleft' : (s.put 0).dp + m = num.toNat := by
        rw [CopyState.put_dp]
        omega
      have hwrite : (Access.write s.dp 0).Allowed source num.toNat := hlt
      have hrest := ih turns (s.put 0) (put_counter hplace hlt 0) hleft' (by omega)
      rw [fillLoop, if_pos hmore]
      exact ⟨hrest.result, Trace.All.step hwrite hrest.accesses⟩

/-- One turn of the first loop, with `m + 1` bytes left and no NUL met so far:
at a NUL the second loop takes over, and otherwise `hrest` is about what
follows. -/
theorem copyLoop_turn {m turns limit : Nat} (hplace : s.i.toNat = s.dp)
    (hleft : s.dp + (m + 1) = num.toNat) (hlimit : num.toNat < limit)
    (hnonzero : ∀ j < s.dp, source j ≠ 0)
    (hrest : source s.dp ≠ 0 →
      Stores source num.toNat (s.dp + 1) (PascalScheduler.strncpy source m (s.dp + 1))
        (s.put (source s.dp)).destination
        ((if (s.put (source s.dp)).i ≥ num then .pure (s.put (source s.dp))
          else copyLoop source num turns (s.dp + 1) (s.put (source s.dp))).bind
            (fillLoop num limit))) :
    Stores source num.toNat s.dp (PascalScheduler.strncpy source (m + 1) s.dp) s.destination
      ((copyLoop source num (turns + 1) s.dp s).bind (fillLoop num limit)) := by
  have hread : (Access.read s.dp).Allowed source num.toNat := ⟨by omega, hnonzero⟩
  by_cases hnul : source s.dp = 0
  · have hfill : Stores source num.toNat s.dp (List.replicate (m + 1) 0) s.destination
        (fillLoop num limit s) := fillLoop_stores (m + 1) limit s hplace hleft (by omega)
    rw [copyLoop, if_neg (not_not_intro hnul), Trace.step_bind, Trace.pure_bind,
      PascalScheduler.strncpy, if_pos hnul]
    exact ⟨hfill.result, Trace.All.step hread hfill.accesses⟩
  · have hwrite : (Access.write s.dp (source s.dp)).Allowed source num.toNat := by
      change s.dp < num.toNat
      omega
    have hstores := hrest hnul
    rw [copyLoop, if_pos hnul, PascalScheduler.strncpy, if_neg hnul]
    simp only [Trace.step_bind]
    exact ⟨hstores.result,
      Trace.All.step hread (Trace.All.step hread (Trace.All.step hwrite hstores.accesses))⟩

/-- Both loops, from a byte on where no NUL has been met and one more byte is to
be stored. -/
theorem copyLoop_stores (m turns limit : Nat) (s : CopyState) (hplace : s.i.toNat = s.dp)
    (hleft : s.dp + (m + 1) = num.toNat) (hturns : m < turns) (hlimit : num.toNat < limit)
    (hnonzero : ∀ j < s.dp, source j ≠ 0) :
    Stores source num.toNat s.dp (PascalScheduler.strncpy source (m + 1) s.dp) s.destination
      ((copyLoop source num turns s.dp s).bind (fillLoop num limit)) := by
  induction m generalizing turns s with
  | zero =>
      obtain ⟨turns, rfl⟩ := Nat.exists_eq_add_one.mpr hturns
      apply copyLoop_turn hplace hleft hlimit hnonzero
      intro _
      have hcounter := put_counter hplace (by omega : s.dp < num.toNat) (source s.dp)
      have hlast : (s.put (source s.dp)).i ≥ num := by
        rw [ge_iff_le, UInt32.le_iff_toNat_le, hcounter]
        exact hleft.ge
      rw [if_pos hlast, Trace.pure_bind]
      exact fillLoop_stores 0 limit (s.put (source s.dp)) hcounter hleft (by omega)
  | succ m ih =>
      obtain ⟨turns, rfl⟩ := Nat.exists_eq_add_one.mpr (Nat.zero_lt_of_lt hturns)
      apply copyLoop_turn hplace hleft hlimit hnonzero
      intro hne
      have hcounter := put_counter hplace (by omega : s.dp < num.toNat) (source s.dp)
      have hleft' : (s.put (source s.dp)).dp + (m + 1) = num.toNat := by
        rw [CopyState.put_dp]
        omega
      have hmore : ¬ (s.put (source s.dp)).i ≥ num := by
        rw [ge_iff_le, UInt32.le_iff_toNat_le, hcounter]
        omega
      have hnonzero' : ∀ j < (s.put (source s.dp)).dp, source j ≠ 0 := by
        intro j hj
        rcases Nat.lt_succ_iff_lt_or_eq.mp hj with hlt | rfl
        · exact hnonzero j hlt
        · exact hne
      rw [if_neg hmore]
      exact ih turns (s.put (source s.dp)) hcounter hleft' (by omega) hnonzero'

/-- `strncpy` ends, stores what the list model says, and accesses nothing else. -/
theorem strncpy_stores (source before : Nat → UInt8) (num : UInt32) (extra : Nat) :
    Stores source num.toNat 0 (PascalScheduler.strncpy source num.toNat 0) before
      (strncpy source num (num.toNat + 1 + extra) before) := by
  unfold strncpy
  split
  · rename_i hzero
    subst hzero
    exact ⟨rfl, Trace.All.pure _⟩
  · rename_i hne
    have hpos : 0 < num.toNat := by
      apply Nat.pos_of_ne_zero
      intro hzero
      exact hne (UInt32.toNat_inj.mp hzero)
    obtain ⟨m, hm⟩ := Nat.exists_eq_add_one.mpr hpos
    have hleft : (⟨0, 0, before⟩ : CopyState).dp + (m + 1) = num.toNat := by
      simp only
      omega
    have hnonzero : ∀ j < (⟨0, 0, before⟩ : CopyState).dp, source j ≠ 0 := nofun
    have hstores := copyLoop_stores m (num.toNat + 1 + extra) (num.toNat + 1 + extra)
      ⟨0, 0, before⟩ rfl hleft (by omega) (by omega) hnonzero
    rw [← hm] at hstores
    exact hstores

theorem length_strncpy (source : Nat → UInt8) (num i : Nat) :
    (PascalScheduler.strncpy source num i).length = num := by
  induction num generalizing i with
  | zero => rfl
  | succ num ih =>
      unfold PascalScheduler.strncpy
      split
      · exact List.length_replicate
      · rw [List.length_cons, ih]

/-- The list model, byte by byte. -/
theorem strncpy_getElem (source : Nat → UInt8) (num i k : Nat)
    (hk : k < (PascalScheduler.strncpy source num i).length) :
    ((∀ j ≤ k, source (i + j) ≠ 0) →
        (PascalScheduler.strncpy source num i)[k] = source (i + k)) ∧
      ((∃ j ≤ k, source (i + j) = 0) → (PascalScheduler.strncpy source num i)[k] = 0) := by
  induction num generalizing i k with
  | zero => cases hk
  | succ num ih =>
      have hshift (j : Nat) : i + 1 + j = i + (j + 1) := by omega
      by_cases hnul : source i = 0
      · simp only [PascalScheduler.strncpy, if_pos hnul, List.getElem_replicate, implies_true,
          and_true]
        intro hall
        exact absurd hnul (hall 0 (Nat.zero_le _))
      · simp only [PascalScheduler.strncpy, if_neg hnul] at hk ⊢
        cases k with
        | zero =>
            refine ⟨fun _ => rfl, ?_⟩
            rintro ⟨j, hj, hzero⟩
            obtain rfl := Nat.le_zero.mp hj
            exact absurd hzero hnul
        | succ k =>
            obtain ⟨hcopied, hfilled⟩ := ih (i + 1) k (Nat.lt_of_succ_lt_succ hk)
            rw [List.getElem_cons_succ]
            constructor
            · intro hall
              rw [hcopied fun j hj => by rw [hshift]; exact hall (j + 1) (by omega), hshift]
            · rintro ⟨j, hj, hzero⟩
              cases j with
              | zero => exact absurd hzero hnul
              | succ j => exact hfilled ⟨j, by omega, by rw [hshift]; exact hzero⟩

theorem strncpy_offset (bytes : Nat → UInt8) (num i j : Nat) :
    PascalScheduler.strncpy (fun k => bytes (i + k)) num j =
      PascalScheduler.strncpy bytes num (i + j) := by
  induction num generalizing j with
  | zero => rfl
  | succ num ih =>
      unfold PascalScheduler.strncpy
      rw [ih (j + 1), Nat.add_assoc]

/-- A string field of the CID as `mmc_read_cid` fills it, by `strncpy` from a
byte of the register on and a NUL behind. -/
theorem strncpy_field (bytes before : Nat → UInt8) (num : UInt32) (i extra : Nat) :
    ∃ after, (strncpy (fun k => bytes (i + k)) num (num.toNat + 1 + extra) before).result =
        some after ∧
      (List.range (num.toNat + 1)).map (Function.update after num.toNat 0) =
        PascalScheduler.strncpy bytes num.toNat i ++ [0] := by
  have hstores := strncpy_stores (fun k => bytes (i + k)) before num extra
  have hlength := length_strncpy bytes num.toNat i
  refine ⟨_, hstores.result, ?_⟩
  rw [strncpy_offset, Nat.add_zero]
  apply List.ext_getElem
  · simp [hlength]
  · intro k hk _
    have hle : k ≤ num.toNat := by simpa [Nat.lt_succ_iff] using hk
    rw [List.getElem_map, List.getElem_range]
    rcases Nat.lt_or_eq_of_le hle with hlt | rfl
    · rw [Function.update_of_ne hlt.ne, overlay_start (by omega), List.getElem_append_left]
    · simp [hlength]

/-- For every source, destination and `num`, `strncpy` meets its contract. -/
theorem strncpy_contract (source before : Nat → UInt8) (num : UInt32) (extra : Nat) :
    ∃ after, (strncpy source num (num.toNat + 1 + extra) before).result = some after ∧
      MeetsContract source num.toNat before after
        (strncpy source num (num.toNat + 1 + extra) before).events := by
  obtain ⟨hresult, haccesses⟩ := strncpy_stores source before num extra
  have hlength := length_strncpy source num.toNat 0
  refine ⟨_, hresult, ?_⟩
  constructor
  · intro k hk hall
    have hbyte := (strncpy_getElem source num.toNat 0 k (by omega)).1
    simp only [Nat.zero_add] at hbyte
    rw [overlay_start (by omega), hbyte hall]
  · intro k hk hnul
    have hbyte := (strncpy_getElem source num.toNat 0 k (by omega)).2
    simp only [Nat.zero_add] at hbyte
    rw [overlay_start (by omega), hbyte hnul]
  · intro k hk
    exact overlay_outside (.inr (by omega))
  · exact fun k hmem => haccesses _ hmem
  · intro size hreadable k hmem
    obtain ⟨hlt, hnonzero⟩ : k < num.toNat ∧ ∀ j < k, source j ≠ 0 := haccesses _ hmem
    rcases hreadable with ⟨n, hn, hnul⟩ | hle
    · by_contra hout
      exact hnonzero n (by omega) hnul
    · omega
  · exact fun k c hmem => haccesses _ hmem

end Strncpy

end PascalScheduler.StringCopy
