import PascalScheduler.Dev.Mmc
import PascalScheduler.Library.Fuel

/-!
The polling loops of the MMC driver on any device. A loop ends exactly when the
byte it waits for is among those the device goes on to send, and then with the
first such byte. Larger bounds on the loops change nothing.
-/

namespace PascalScheduler

open Fuel

variable {σ : Type*} (dev : SpiDevice σ)

/-- The device after `n` bytes were received from it. -/
def afterReads : Nat → σ → σ
  | 0, s => s
  | n + 1, s => afterReads n (usicSpiReceive dev s).2

/-- The byte that the device sends after `n` others. -/
def byteAt (s : σ) (n : Nat) : UInt8 :=
  (usicSpiReceive dev (afterReads dev n s)).1

/-- Byte `m` is the first one with the property `p`. -/
def FirstByte (p : UInt8 → Prop) (s : σ) (m : Nat) : Prop :=
  p (byteAt dev s m) ∧ ∀ k, k < m → ¬ p (byteAt dev s k)

/-- The bytes that `mmc_read` stores when the first of them is byte `m`. -/
def received (s : σ) (m size : Nat) (i : Nat) : UInt8 :=
  if i < size then byteAt dev s (m + i) else 0

variable {s : σ}

theorem afterReads_add (m n : Nat) (s : σ) :
    afterReads dev (m + n) s = afterReads dev n (afterReads dev m s) := by
  induction m generalizing s with
  | zero => rw [Nat.zero_add, afterReads]
  | succ m ih =>
      rw [Nat.succ_add, afterReads, afterReads]
      exact ih _

theorem byteAt_add (s : σ) (m n : Nat) :
    byteAt dev s (m + n) = byteAt dev (afterReads dev m s) n := by
  rw [byteAt, afterReads_add]
  rfl

variable {dev}

theorem FirstByte.unique {p : UInt8 → Prop} {m n : Nat} (hm : FirstByte dev p s m)
    (hn : FirstByte dev p s n) : m = n := by
  rcases Nat.lt_trichotomy m n with hlt | heq | hgt
  · exact absurd hm.1 (hn.2 m hlt)
  · exact heq
  · exact absurd hn.1 (hm.2 n hgt)

theorem firstByte_zero {p : UInt8 → Prop} :
    FirstByte dev p s 0 ↔ p (usicSpiReceive dev s).1 := by
  simp [FirstByte, byteAt, afterReads]

/-- One byte later, where the first byte does not have the property. -/
theorem firstByte_succ {p : UInt8 → Prop} {m : Nat} :
    FirstByte dev p s (m + 1) ↔
      ¬ p (usicSpiReceive dev s).1 ∧ FirstByte dev p (usicSpiReceive dev s).2 m := by
  constructor
  · rintro ⟨hp, hbefore⟩
    refine ⟨hbefore 0 (Nat.succ_pos m), hp, ?_⟩
    intro k hk
    exact hbefore (k + 1) (Nat.succ_lt_succ hk)
  · rintro ⟨hfirst, hp, hbefore⟩
    refine ⟨hp, ?_⟩
    intro k hk
    cases k with
    | zero => exact hfirst
    | succ k => exact hbefore k (Nat.lt_of_succ_lt_succ hk)

/-- The first of the bytes from some point on is the first of all when none
before that point will do. -/
theorem exists_firstByte {p : UInt8 → Prop} [DecidablePred p] {n : Nat}
    (h : p (byteAt dev s n)) : ∃ m, m ≤ n ∧ FirstByte dev p s m := by
  have hex : ∃ n, p (byteAt dev s n) := ⟨n, h⟩
  refine ⟨Nat.find hex, Nat.find_min' hex h, Nat.find_spec hex, ?_⟩
  intro k hk
  exact Nat.find_min hex hk

section Loops

theorem pollByte_stable (s : σ) : Stable (fun fuel => pollByte dev fuel s) := by
  apply stable_of_succ
  intro fuel
  induction fuel generalizing s with
  | zero => exact nofun
  | succ fuel ih =>
      intro a h
      rw [pollByte] at h ⊢
      split at h
      · rename_i hbusy
        rw [if_pos hbusy]
        exact ih _ a h
      · rename_i hdone
        rw [if_neg hdone]
        exact h

/-- Polling ends with the first byte that is not `0xFF`. -/
theorem pollByte_ends {r : UInt8 × σ} :
    Ends (fun fuel => pollByte dev fuel s) r ↔
      ∃ m, FirstByte dev (· ≠ 0xFF) s m ∧ r = (byteAt dev s m, afterReads dev (m + 1) s) := by
  constructor
  · rintro ⟨fuel, h⟩
    simp only at h
    induction fuel generalizing s with
    | zero => cases h
    | succ fuel ih =>
        rw [pollByte] at h
        split at h
        · rename_i hbusy
          obtain ⟨m, hfirst, hr⟩ := ih h
          exact ⟨m + 1, firstByte_succ.mpr ⟨not_not.mpr hbusy, hfirst⟩, hr⟩
        · rename_i hdone
          exact ⟨0, firstByte_zero.mpr hdone, (Option.some.inj h).symm⟩
  · rintro ⟨m, hfirst, rfl⟩
    refine ⟨m + 1, ?_⟩
    simp only
    induction m generalizing s with
    | zero =>
        rw [pollByte, mmcReadByte, if_neg (firstByte_zero.mp hfirst)]
        rfl
    | succ m ih =>
        obtain ⟨hbusy, hrest⟩ := firstByte_succ.mp hfirst
        rw [pollByte, mmcReadByte, if_pos (not_not.mp hbusy)]
        exact ih hrest

theorem waitStartBlock_stable (ignoreStatus : UInt8) (s : σ) :
    Stable (fun fuel => mmcSpiWaitStartBlock dev ignoreStatus fuel s) := by
  apply stable_of_succ
  intro fuel
  induction fuel generalizing s with
  | zero => exact nofun
  | succ fuel ih =>
      intro a h
      rw [mmcSpiWaitStartBlock] at h ⊢
      split at h
      · rename_i hstatus
        rw [if_pos hstatus]
        exact h
      · rename_i hstatus
        rw [if_neg hstatus]
        split at h
        · rename_i hother
          rw [if_pos hother]
          exact ih _ a h
        · rename_i htoken
          rw [if_neg htoken]
          exact h

/-- What ends the wait for a start block: the token, or an error status where
one is looked for. -/
def EndsWait (ignoreStatus b : UInt8) : Prop :=
  b = 0xFE ∨ (b &&& 0xF0 = 0 ∧ ignoreStatus = 0)

instance (ignoreStatus b : UInt8) : Decidable (EndsWait ignoreStatus b) :=
  inferInstanceAs (Decidable (_ ∨ _))

def waitResult (ignoreStatus b : UInt8) : Int32 :=
  if b &&& 0xF0 = 0 ∧ ignoreStatus = 0 then mmcError else mmcOk

theorem waitStartBlock_ends {ignoreStatus : UInt8} {r : Int32 × σ} :
    Ends (fun fuel => mmcSpiWaitStartBlock dev ignoreStatus fuel s) r ↔
      ∃ m, FirstByte dev (EndsWait ignoreStatus) s m ∧
        r = (waitResult ignoreStatus (byteAt dev s m), afterReads dev (m + 1) s) := by
  constructor
  · rintro ⟨fuel, h⟩
    simp only at h
    induction fuel generalizing s with
    | zero => cases h
    | succ fuel ih =>
        rw [mmcSpiWaitStartBlock] at h
        split at h
        · rename_i hstatus
          refine ⟨0, firstByte_zero.mpr (.inr hstatus), ?_⟩
          rw [← Option.some.inj h, waitResult]
          exact congrArg₂ Prod.mk (if_pos hstatus).symm rfl
        · rename_i hstatus
          split at h
          · rename_i hother
            obtain ⟨m, hfirst, hr⟩ := ih h
            exact ⟨m + 1, firstByte_succ.mpr ⟨not_or.mpr ⟨hother, hstatus⟩, hfirst⟩, hr⟩
          · rename_i htoken
            refine ⟨0, firstByte_zero.mpr (.inl (not_not.mp htoken)), ?_⟩
            rw [← Option.some.inj h, waitResult]
            exact congrArg₂ Prod.mk (if_neg hstatus).symm rfl
  · rintro ⟨m, hfirst, rfl⟩
    refine ⟨m + 1, ?_⟩
    simp only
    induction m generalizing s with
    | zero =>
        have hends := firstByte_zero.mp hfirst
        rw [mmcSpiWaitStartBlock, mmcReadByte, waitResult]
        by_cases hstatus : (usicSpiReceive dev s).1 &&& 0xF0 = 0 ∧ ignoreStatus = 0
        · rw [if_pos hstatus]
          exact congrArg some (congrArg₂ Prod.mk (if_pos hstatus).symm rfl)
        · rw [if_neg hstatus, if_neg (not_not.mpr (hends.resolve_right hstatus))]
          exact congrArg some (congrArg₂ Prod.mk (if_neg hstatus).symm rfl)
    | succ m ih =>
        obtain ⟨hwaits, hrest⟩ := firstByte_succ.mp hfirst
        obtain ⟨hother, hstatus⟩ := not_or.mp hwaits
        rw [mmcSpiWaitStartBlock, mmcReadByte, if_neg hstatus, if_pos hother]
        exact ih hrest

/-- `dev_read` of a fixed number of bytes. -/
theorem devRead_eq (size i : Nat) (buf : Nat → UInt8) (s : σ) :
    devRead dev size i buf s =
      (fun k => if i ≤ k ∧ k < i + size then byteAt dev s (k - i) else buf k,
        afterReads dev size s) := by
  induction size generalizing i buf s with
  | zero =>
      have hnone : ∀ k, ¬ (i ≤ k ∧ k < i + 0) := by omega
      simp only [devRead, afterReads, hnone, if_false]
  | succ size ih =>
      rw [devRead, ih]
      refine Prod.ext ?_ rfl
      funext k
      simp only
      by_cases hk : k = i
      · subst hk
        rw [if_neg (by omega), if_pos (by omega), Function.update_self, Nat.sub_self]
        rfl
      · rw [Function.update_of_ne hk]
        by_cases hin : i + 1 ≤ k ∧ k < i + 1 + size
        · rw [if_pos hin, if_pos (by omega), show k - i = k - (i + 1) + 1 by omega]
          rfl
        · rw [if_neg hin, if_neg (by omega)]

theorem mmcRead_stable (buf : Nat → UInt8) (size : Nat) (s : σ) :
    Stable (fun fuel => mmcRead dev fuel buf size s) :=
  (pollByte_stable s).map _

/-- `mmc_read` skips what polling skips and takes the bytes that follow. -/
theorem mmcRead_ends {buf : Nat → UInt8} {size : Nat} (hsize : 0 < size)
    {r : (Nat → UInt8) × σ} :
    Ends (fun fuel => mmcRead dev fuel buf size s) r ↔
      ∃ m, FirstByte dev (· ≠ 0xFF) s m ∧
        r = (fun k => if k < size then byteAt dev s (m + k) else buf k,
          afterReads dev (m + size) s) := by
  simp only [mmcRead, mmcSpiWaitUnbusy, ends_map, pollByte_ends]
  have hread : ∀ m, devRead dev (size - 1) 1 (Function.update buf 0 (byteAt dev s m))
      (afterReads dev (m + 1) s) =
        (fun k => if k < size then byteAt dev s (m + k) else buf k,
          afterReads dev (m + size) s) := by
    intro m
    rw [devRead_eq]
    refine Prod.ext ?_ ?_
    · funext k
      simp only
      cases k with
      | zero => rw [if_neg (by omega), if_pos hsize, Function.update_self, Nat.add_zero]
      | succ k =>
          rw [Function.update_of_ne (Nat.succ_ne_zero k), ← byteAt_add,
            show m + 1 + (k + 1 - 1) = m + (k + 1) by omega]
          by_cases hk : k + 1 < size
          · rw [if_pos (by omega), if_pos hk]
          · rw [if_neg (by omega), if_neg hk]
    · simp only
      rw [← afterReads_add, show m + 1 + (size - 1) = m + size by omega]
  constructor
  · rintro ⟨_, ⟨m, hfirst, rfl⟩, rfl⟩
    exact ⟨m, hfirst, hread m⟩
  · rintro ⟨m, hfirst, rfl⟩
    exact ⟨_, ⟨m, hfirst, rfl⟩, hread m⟩

end Loops

section Sector

variable (dev)

/-- The card grants a sector read: status zero, then the start token before any
error status, then a byte that `mmc_read` takes for the first of the block. -/
structure GrantsRead (s : σ) (m n k : Nat) : Prop where
  answers : FirstByte dev (· ≠ 0xFF) s m
  status : byteAt dev s m = 0
  waits : FirstByte dev (EndsWait 0) (afterReads dev (m + 1) s) n
  token : byteAt dev (afterReads dev (m + 1) s) n = 0xFE
  sends : FirstByte dev (· ≠ 0xFF) (afterReads dev (m + 1 + (n + 1)) s) k

/-- The card refuses a sector read, with a status other than zero or with an
error status before the start token, and is left in the second state. -/
inductive RefusesRead (s : σ) : σ → Prop where
  | status {m : Nat} (hanswers : FirstByte dev (· ≠ 0xFF) s m)
      (hstatus : byteAt dev s m ≠ 0) : RefusesRead s (afterReads dev (m + 1) s)
  | start {m n : Nat} (hanswers : FirstByte dev (· ≠ 0xFF) s m)
      (hstatus : byteAt dev s m = 0)
      (hwaits : FirstByte dev (EndsWait 0) (afterReads dev (m + 1) s) n)
      (htoken : byteAt dev (afterReads dev (m + 1) s) n ≠ 0xFE) :
      RefusesRead s (afterReads dev (m + 1 + (n + 1)) s)

/-- The buffer and the device when the granted block has been read. -/
def grantedBlock (info : MmcInfo) (buf : Nat → UInt8) (s : σ) (m n k : Nat) :
    (Nat → UInt8) × σ :=
  devRead dev (info.readBlockSize.toNat - 1) 1
    (Function.update buf 0 (byteAt dev (afterReads dev (m + 1 + (n + 1)) s) k))
    (afterReads dev (m + 1 + (n + 1) + (k + 1)) s)

variable {dev} {info : MmcInfo} {buf : Nat → UInt8} {sector : Int32}

theorem mmcReadSector_stable (info : MmcInfo) (buf : Nat → UInt8) (sector : Int32) (s : σ) :
    Stable (fun fuel => mmcReadSector dev fuel info buf sector s) := by
  apply (pollByte_stable _).bind
  intro status
  apply Stable.ite
  · exact stable_const _
  · apply (waitStartBlock_stable 0 _).bind
    intro start
    apply Stable.ite
    · exact stable_const _
    · exact (mmcRead_stable _ _ _).map _

theorem mmcWriteSector_stable (info : MmcInfo) (buf : Nat → UInt8) (sector : Int32) (s : σ) :
    Stable (fun fuel => mmcWriteSector dev fuel info buf sector s) :=
  (pollByte_stable _).map _

/-- A card that refuses a read does not grant it, and it grants it in one way. -/
theorem GrantsRead.unique {m n k m' n' k' : Nat} (h : GrantsRead dev s m n k)
    (h' : GrantsRead dev s m' n' k') : m = m' ∧ n = n' ∧ k = k' := by
  obtain rfl := h.answers.unique h'.answers
  obtain rfl := h.waits.unique h'.waits
  exact ⟨rfl, rfl, h.sends.unique h'.sends⟩

theorem RefusesRead.not_grants {t : σ} (h : RefusesRead dev s t) {m n k : Nat} :
    ¬ GrantsRead dev s m n k := by
  intro hgrants
  cases h with
  | status hanswers hstatus =>
      obtain rfl := hanswers.unique hgrants.answers
      exact hstatus hgrants.status
  | start hanswers _ hwaits htoken =>
      obtain rfl := hanswers.unique hgrants.answers
      obtain rfl := hwaits.unique hgrants.waits
      exact htoken hgrants.token

/-- The only byte that ends the wait for the token without an error. -/
theorem waitResult_ok {b : UInt8} (h : EndsWait 0 b) :
    waitResult 0 b ≠ mmcError ↔ b = 0xFE := by
  have hne : mmcOk ≠ mmcError := by decide
  have htoken : ¬ (0xFE : UInt8) &&& 0xF0 = 0 := by decide
  rw [waitResult]
  constructor
  · intro hok
    apply h.resolve_right
    intro hstatus
    exact hok (if_pos hstatus)
  · rintro rfl
    rw [if_neg (fun hstatus => htoken hstatus.1)]
    exact hne

/-- The bytes of a block, once the card sends one other than `0xFF`. -/
theorem blockRead_ends {size : Nat} {t : σ} {r : Int32 × (Nat → UInt8) × σ} :
    Ends (fun fuel => (mmcRead dev fuel buf size t).map fun block =>
        (mmcOk, block.1, block.2)) r ↔
      ∃ k, FirstByte dev (· ≠ 0xFF) t k ∧
        r = (mmcOk, devRead dev (size - 1) 1 (Function.update buf 0 (byteAt dev t k))
          (afterReads dev (k + 1) t)) := by
  simp only [ends_map, mmcRead, mmcSpiWaitUnbusy, pollByte_ends]
  constructor
  · rintro ⟨_, ⟨_, ⟨k, hsends, rfl⟩, rfl⟩, rfl⟩
    exact ⟨k, hsends, rfl⟩
  · rintro ⟨k, hsends, rfl⟩
    exact ⟨_, ⟨_, ⟨k, hsends, rfl⟩, rfl⟩, rfl⟩

/-- A sector read once its status is zero: the token, or an error status. -/
theorem startedRead_ends {r : Int32 × (Nat → UInt8) × σ} :
    Ends (fun fuel => (mmcSpiWaitStartBlock dev 0 fuel s).bind fun start =>
        if start.1 = mmcError then some (mmcError, buf, start.2)
        else
          (mmcRead dev fuel buf info.readBlockSize.toNat start.2).map fun block =>
            (mmcOk, block.1, block.2)) r ↔
      ∃ n, FirstByte dev (EndsWait 0) s n ∧
        ((byteAt dev s n = 0xFE ∧ ∃ k, FirstByte dev (· ≠ 0xFF) (afterReads dev (n + 1) s) k ∧
            r = (mmcOk, devRead dev (info.readBlockSize.toNat - 1) 1
              (Function.update buf 0 (byteAt dev (afterReads dev (n + 1) s) k))
              (afterReads dev (n + 1 + (k + 1)) s))) ∨
          (byteAt dev s n ≠ 0xFE ∧ r = (mmcError, buf, afterReads dev (n + 1) s))) := by
  rw [ends_bind (waitStartBlock_stable 0 _) (fun _ => (stable_const _).ite _
    ((mmcRead_stable _ _ _).map _))]
  simp only [waitStartBlock_ends]
  constructor
  · rintro ⟨_, ⟨n, hwaits, rfl⟩, hrest⟩
    refine ⟨n, hwaits, ?_⟩
    by_cases htoken : byteAt dev s n = 0xFE
    · simp only [if_neg ((waitResult_ok hwaits.1).mpr htoken), blockRead_ends,
        ← afterReads_add] at hrest
      exact .inl ⟨htoken, hrest⟩
    · have herror := not_not.mp (mt (waitResult_ok hwaits.1).mp htoken)
      simp only [if_pos herror, ends_some] at hrest
      exact .inr ⟨htoken, hrest⟩
  · rintro ⟨n, hwaits, ⟨htoken, hrest⟩ | ⟨htoken, rfl⟩⟩
    · refine ⟨_, ⟨n, hwaits, rfl⟩, ?_⟩
      simp only [if_neg ((waitResult_ok hwaits.1).mpr htoken), blockRead_ends,
        ← afterReads_add]
      exact hrest
    · refine ⟨_, ⟨n, hwaits, rfl⟩, ?_⟩
      have herror := not_not.mp (mt (waitResult_ok hwaits.1).mp htoken)
      simp only [if_pos herror, ends_some]

/-- A sector read that ends was granted or refused. -/
theorem mmcReadSector_ends {r : Int32 × (Nat → UInt8) × σ} :
    Ends (fun fuel => mmcReadSector dev fuel info buf sector s) r ↔
      (∃ m n k, GrantsRead dev
          (mmcSendCmd dev mmcCmd17 (sector.toUInt32 * info.readBlockSize) s) m n k ∧
        r = (mmcOk, grantedBlock dev info buf
          (mmcSendCmd dev mmcCmd17 (sector.toUInt32 * info.readBlockSize) s) m n k)) ∨
      ∃ t, RefusesRead dev (mmcSendCmd dev mmcCmd17 (sector.toUInt32 * info.readBlockSize) s) t ∧
        r = (mmcError, buf, t) := by
  generalize hcmd : mmcSendCmd dev mmcCmd17 (sector.toUInt32 * info.readBlockSize) s = s₀
  simp only [mmcReadSector, hcmd, mmcSpiReadStatus]
  rw [ends_bind (pollByte_stable _) (fun _ => (stable_const _).ite _
    ((waitStartBlock_stable 0 _).bind (fun _ => (stable_const _).ite _
      ((mmcRead_stable _ _ _).map _))))]
  simp only [pollByte_ends]
  constructor
  · rintro ⟨_, ⟨m, hanswers, rfl⟩, hrest⟩
    by_cases hstatus : byteAt dev s₀ m = 0
    · simp only [hstatus, ne_eq, not_true, if_false, startedRead_ends, ← afterReads_add] at hrest
      rcases hrest with ⟨n, hwaits, ⟨htoken, k, hsends, hr⟩ | ⟨htoken, hr⟩⟩
      · refine .inl ⟨m, n, k, ⟨hanswers, hstatus, hwaits, htoken, hsends⟩, ?_⟩
        rw [hr, grantedBlock, Nat.add_assoc (m + 1)]
      · exact .inr ⟨_, .start hanswers hstatus hwaits htoken, hr⟩
    · simp only [if_pos hstatus, ends_some] at hrest
      exact .inr ⟨_, .status hanswers hstatus, hrest⟩
  · rintro (⟨m, n, k, hgrants, rfl⟩ | ⟨t, hrefuses, rfl⟩)
    · refine ⟨_, ⟨m, hgrants.answers, rfl⟩, ?_⟩
      simp only [hgrants.status, ne_eq, not_true, if_false, startedRead_ends, ← afterReads_add]
      refine ⟨n, hgrants.waits, .inl ⟨hgrants.token, k, hgrants.sends, ?_⟩⟩
      rw [grantedBlock, Nat.add_assoc (m + 1)]
    · cases hrefuses with
      | @status m hanswers hstatus =>
          refine ⟨_, ⟨m, hanswers, rfl⟩, ?_⟩
          simp only [if_pos hstatus, ends_some]
      | @start m n hanswers hstatus hwaits htoken =>
          refine ⟨_, ⟨m, hanswers, rfl⟩, ?_⟩
          simp only [hstatus, ne_eq, not_true, if_false, startedRead_ends, ← afterReads_add]
          exact ⟨n, hwaits, .inr ⟨htoken, rfl⟩⟩

/-- It succeeds exactly when the card grants it. -/
theorem mmcReadSector_ok {r : Int32 × (Nat → UInt8) × σ} :
    Ends (fun fuel => mmcReadSector dev fuel info buf sector s) r ∧ r.1 = mmcOk ↔
      ∃ m n k, GrantsRead dev
          (mmcSendCmd dev mmcCmd17 (sector.toUInt32 * info.readBlockSize) s) m n k ∧
        r = (mmcOk, grantedBlock dev info buf
          (mmcSendCmd dev mmcCmd17 (sector.toUInt32 * info.readBlockSize) s) m n k) := by
  have hne : ¬ mmcError = mmcOk := by decide
  rw [mmcReadSector_ends]
  constructor
  · rintro ⟨hgrants | ⟨t, _, rfl⟩, hok⟩
    · exact hgrants
    · exact absurd hok hne
  · intro hgrants
    refine ⟨.inl hgrants, ?_⟩
    obtain ⟨m, n, k, _, rfl⟩ := hgrants
    rfl

/-- A sector write sends its block exactly when the card grants it. -/
theorem mmcWriteSector_ends {r : Int32 × σ} :
    Ends (fun fuel => mmcWriteSector dev fuel info buf sector s) r ↔
      ∃ m, FirstByte dev (· ≠ 0xFF)
          (mmcSendCmd dev mmcCmd24 (sector.toUInt32 * info.writeBlockSize) s) m ∧
        r = if byteAt dev
              (mmcSendCmd dev mmcCmd24 (sector.toUInt32 * info.writeBlockSize) s) m ≠ 0 then
            (mmcError, afterReads dev (m + 1)
              (mmcSendCmd dev mmcCmd24 (sector.toUInt32 * info.writeBlockSize) s))
          else
            (mmcOk, mmcSend dev buf info.writeBlockSize.toNat
              (mmcSend dev (arrayOf [0xFF, 0xFE]) 2 (afterReads dev (m + 1)
                (mmcSendCmd dev mmcCmd24 (sector.toUInt32 * info.writeBlockSize) s)))) := by
  generalize hcmd : mmcSendCmd dev mmcCmd24 (sector.toUInt32 * info.writeBlockSize) s = s₀
  simp only [mmcWriteSector, hcmd, mmcSpiReadStatus, ends_map, pollByte_ends]
  constructor
  · rintro ⟨_, ⟨m, hfirst, rfl⟩, rfl⟩
    exact ⟨m, hfirst, rfl⟩
  · rintro ⟨m, hfirst, rfl⟩
    exact ⟨_, ⟨m, hfirst, rfl⟩, rfl⟩

end Sector

section Stream

/-- A device that sends the bytes of a stream, whatever it receives; `pos`
counts the bytes clocked so far. -/
structure Streams (dev : SpiDevice σ) (bytes : Nat → UInt8) (pos : σ → Nat) : Prop where
  answer : ∀ b s, (dev.exchange b s).1 = bytes (pos s)
  next : ∀ b s, pos (dev.exchange b s).2 = pos s + 1

namespace Streams

variable {bytes : Nat → UInt8} {pos : σ → Nat}

theorem afterReads (h : Streams dev bytes pos) (n : Nat) (s : σ) :
    pos (afterReads dev n s) = pos s + n := by
  induction n generalizing s with
  | zero => rfl
  | succ n ih =>
      rw [PascalScheduler.afterReads, ih, usicSpiReceive, h.next]
      omega

theorem byteAt (h : Streams dev bytes pos) (s : σ) (n : Nat) :
    byteAt dev s n = bytes (pos s + n) := by
  rw [PascalScheduler.byteAt, usicSpiReceive, h.answer, h.afterReads]

theorem devWrite (h : Streams dev bytes pos) (buf : Nat → UInt8) (size i : Nat) (s : σ) :
    pos (devWrite dev buf size i s) = pos s + size := by
  induction size generalizing i s with
  | zero => rfl
  | succ size ih =>
      rw [PascalScheduler.devWrite, ih, usicSpiSend, h.next]
      omega

theorem mmcSend (h : Streams dev bytes pos) (buf : Nat → UInt8) (size : Nat) (s : σ) :
    pos (mmcSend dev buf size s) = pos s + size :=
  h.devWrite buf size 0 s

theorem mmcSendCmd (h : Streams dev bytes pos) (cmd : UInt8) (arg : UInt32) (s : σ) :
    pos (mmcSendCmd dev cmd arg s) = pos s + 7 :=
  h.mmcSend _ 7 s

end Streams

/-- The state of a plain stream is its position. -/
def streamDevice (bytes : Nat → UInt8) : SpiDevice Nat where
  exchange _ n := (bytes n, n + 1)

theorem streamDevice_streams (bytes : Nat → UInt8) :
    Streams (streamDevice bytes) bytes (fun n => n) where
  answer _ _ := rfl
  next _ _ := rfl

end Stream

end PascalScheduler
