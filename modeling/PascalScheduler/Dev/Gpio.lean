import Mathlib.Tactic

/-!
`GPIO_PIN_MUX` (`dev/gpio/ifx_gpio.h`) on a port register, whose four bytes
configure one pin each. The macro masks the register with the pin's own byte
where it should spare the others: the old configuration of the pin stays and
those of the other pins go.
-/

namespace PascalScheduler

/-- The pins of one register: `GPIO_PI0` to `GPIO_PI3`, and likewise for the
registers of the pins from 4 on. -/
inductive GpioPin where
  | pi0
  | pi1
  | pi2
  | pi3
  deriving DecidableEq

def GpioPin.position : GpioPin → UInt32
  | .pi0 => 0
  | .pi1 => 8
  | .pi2 => 16
  | .pi3 => 24

def gpioOutputPp : UInt8 := (0x10 : UInt8) <<< 3
def gpioOutputAlt4 : UInt8 := (0x4 : UInt8) <<< 3

/-- `GPIO_PIN_MUX`, as the value of the register afterwards. -/
def gpioPinMux (port : UInt32) (conf : UInt8) (pin : GpioPin) : UInt32 :=
  let port := port &&& (0xFF <<< pin.position)
  port ||| (conf.toUInt32 <<< pin.position)

/-- The byte of a pin. -/
def pinByte (port : UInt32) (pin : GpioPin) : UInt8 :=
  (port >>> pin.position).toUInt8

/-- One application of the macro. -/
structure PinSetting where
  pin : GpioPin
  conf : UInt8

def gpioConfigure (port : UInt32) (settings : List PinSetting) : UInt32 :=
  settings.foldl (fun port a => gpioPinMux port a.conf a.pin) port

/-- What a pin should hold in the end: its last configuration, or `initial` when
it was never configured. -/
def lastConf (initial : UInt8) (pin : GpioPin) (settings : List PinSetting) : UInt8 :=
  settings.foldl (fun conf a => if a.pin = pin then a.conf else conf) initial

/-- Each pin holds the configuration last applied to it, and the others keep theirs. -/
def Configured (port : UInt32) (settings : List PinSetting) : Prop :=
  ∀ pin, pinByte (gpioConfigure port settings) pin = lastConf (pinByte port pin) pin settings

/-- No bit of `inner` lies outside `conf`. -/
def Within (inner conf : UInt8) : Prop :=
  inner ||| conf = conf

/-- The applications to `pin` that end the sequence. -/
def finalRun (pin : GpioPin) (settings : List PinSetting) : List PinSetting :=
  settings.reverse.takeWhile fun a => a.pin = pin

/-- With `pin` configured last, as `conf`: the other pins should all hold zero,
and what was in the pin's byte before, as far as it is kept, lies within `conf`. -/
structure PinUndisturbed (port : UInt32) (settings : List PinSetting) (pin : GpioPin)
    (conf : UInt8) : Prop where
  others : ∀ q, q ≠ pin → lastConf (pinByte port q) q settings = 0
  run : ∀ a ∈ finalRun pin settings, Within a.conf conf
  initial : (∀ a ∈ settings, a.pin = pin) → Within (pinByte port pin) conf

section Bits

variable (port : UInt32) (conf : UInt8) (pin : GpioPin)

theorem position_le : pin.position.toNat + 8 ≤ 32 := by
  cases pin <;> decide

theorem pinByte_getLsbD {i : Nat} (hi : i < 8) :
    (pinByte port pin).toBitVec.getLsbD i = port.toBitVec.getLsbD (pin.position.toNat + i) := by
  cases pin <;> simp [pinByte, GpioPin.position, hi]

theorem pinMask_getLsbD {j : Nat} (hj : j < 32) :
    ((0xFF : UInt32) <<< pin.position).toBitVec.getLsbD j =
      decide (pin.position.toNat ≤ j ∧ j < pin.position.toNat + 8) := by
  have hall : ∀ j < 32, ((0xFF : UInt32) <<< pin.position).toBitVec.getLsbD j =
      decide (pin.position.toNat ≤ j ∧ j < pin.position.toNat + 8) := by
    cases pin <;> decide
  exact hall j hj

theorem shiftedConf_getLsbD {j : Nat} (hj : j < 32) :
    (conf.toUInt32 <<< pin.position).toBitVec.getLsbD j =
      (!decide (j < pin.position.toNat) && conf.toBitVec.getLsbD (j - pin.position.toNat)) := by
  cases pin <;> simp [GpioPin.position, hj] <;> rfl

/-- The register keeps bits of the pin's byte only. -/
theorem gpioPinMux_getLsbD {j : Nat} (hj : j < 32) :
    (gpioPinMux port conf pin).toBitVec.getLsbD j =
      (decide (pin.position.toNat ≤ j ∧ j < pin.position.toNat + 8) &&
        (port.toBitVec.getLsbD j || conf.toBitVec.getLsbD (j - pin.position.toNat))) := by
  have hbeyond : pin.position.toNat + 8 ≤ j →
      conf.toBitVec.getLsbD (j - pin.position.toNat) = false :=
    fun hle => BitVec.getLsbD_of_ge _ _ (by omega)
  rw [gpioPinMux, UInt32.toBitVec_or, BitVec.getLsbD_or, UInt32.toBitVec_and, BitVec.getLsbD_and,
    pinMask_getLsbD pin hj, shiftedConf_getLsbD conf pin hj]
  by_cases hlow : j < pin.position.toNat
  · simp [hlow, Nat.not_le.mpr hlow]
  · by_cases hlate : pin.position.toNat + 8 ≤ j
    · simp [hbeyond hlate, Nat.not_lt.mpr hlate]
    · simp [Nat.not_lt.mp hlow, hlow, Nat.not_le.mp hlate]

/-- The configuration is added to the old one. -/
theorem pinByte_mux_self : pinByte (gpioPinMux port conf pin) pin = pinByte port pin ||| conf := by
  apply UInt8.eq_of_toBitVec_eq
  apply BitVec.eq_of_getLsbD_eq
  intro i hi
  have hpin := position_le pin
  rw [pinByte_getLsbD _ _ hi, gpioPinMux_getLsbD _ _ _ (by omega), UInt8.toBitVec_or,
    BitVec.getLsbD_or, pinByte_getLsbD _ _ hi]
  simp [hi]

/-- The bytes of the other pins are cleared. -/
theorem pinByte_mux_other {q : GpioPin} (h : q ≠ pin) :
    pinByte (gpioPinMux port conf pin) q = 0 := by
  apply UInt8.eq_of_toBitVec_eq
  apply BitVec.eq_of_getLsbD_eq
  intro i hi
  have hq := position_le q
  have hapart : ¬ (pin.position.toNat ≤ q.position.toNat + i ∧
      q.position.toNat + i < pin.position.toNat + 8) := by
    cases pin <;> cases q <;> simp [GpioPin.position] at * <;> omega
  rw [pinByte_getLsbD _ _ hi, gpioPinMux_getLsbD _ _ _ (by omega)]
  simp [hapart]

/-- A register is its four bytes. -/
theorem eq_of_pinByte {port' : UInt32} (h : ∀ pin, pinByte port pin = pinByte port' pin) :
    port = port' := by
  apply UInt32.eq_of_toBitVec_eq
  apply BitVec.eq_of_getLsbD_eq
  intro j hj
  have hbyte : ∀ pin : GpioPin, ∀ i < 8, j = pin.position.toNat + i →
      port.toBitVec.getLsbD j = port'.toBitVec.getLsbD j := by
    rintro pin i hi rfl
    rw [← pinByte_getLsbD port pin hi, ← pinByte_getLsbD port' pin hi, h pin]
  have hcover : (j < 8 ∨ 8 ≤ j ∧ j < 16) ∨ 16 ≤ j ∧ j < 24 ∨ 24 ≤ j := by omega
  rcases hcover with (hlt | hlt) | hlt | hlt
  · exact hbyte .pi0 j (by omega) (by simp [GpioPin.position])
  · exact hbyte .pi1 (j - 8) (by omega) (by change j = 8 + (j - 8); omega)
  · exact hbyte .pi2 (j - 16) (by omega) (by change j = 16 + (j - 16); omega)
  · exact hbyte .pi3 (j - 24) (by omega) (by change j = 24 + (j - 24); omega)

end Bits

section Within

variable {x y conf : UInt8}

theorem Within.of_or (h : Within (x ||| y) conf) : Within x conf :=
  calc x ||| conf = x ||| (x ||| y ||| conf) := by rw [h]
    _ = x ||| y ||| conf := by simp only [← UInt8.or_assoc, UInt8.or_self]
    _ = conf := h

theorem within_or : Within (x ||| y) conf ↔ Within x conf ∧ Within y conf := by
  constructor
  · intro h
    exact ⟨h.of_or, Within.of_or (UInt8.or_comm x y ▸ h)⟩
  · rintro ⟨hx, hy⟩
    rw [Within, UInt8.or_assoc, hy, hx]

@[simp] theorem within_zero : Within 0 conf := by
  simp [Within]

@[simp] theorem within_self : Within conf conf := by
  simp [Within]

end Within

section Sequences

variable {port : UInt32} {settings : List PinSetting} {a : PinSetting} {pin : GpioPin}
  {conf : UInt8}

theorem gpioConfigure_snoc : gpioConfigure port (settings ++ [a]) =
    gpioPinMux (gpioConfigure port settings) a.conf a.pin := by
  simp [gpioConfigure]

theorem lastConf_snoc (initial : UInt8) : lastConf initial pin (settings ++ [a]) =
    if a.pin = pin then a.conf else lastConf initial pin settings := by
  simp [lastConf]

theorem finalRun_snoc : finalRun pin (settings ++ [a]) =
    if a.pin = pin then a :: finalRun pin settings else [] := by
  simp [finalRun, List.takeWhile_cons]

/-- What a pin's byte holds is what its final run collected, from the initial
byte on if no other pin came before. -/
theorem kept_within_iff : Within (pinByte (gpioConfigure port settings) pin) conf ↔
    (∀ a ∈ finalRun pin settings, Within a.conf conf) ∧
      ((∀ a ∈ settings, a.pin = pin) → Within (pinByte port pin) conf) := by
  induction settings using List.reverseRecOn with
  | nil => simp [gpioConfigure, finalRun]
  | append_singleton settings a ih =>
      rw [gpioConfigure_snoc, finalRun_snoc]
      by_cases hpin : a.pin = pin
      · subst hpin
        have hpins : (∀ b ∈ settings ++ [a], b.pin = a.pin) ↔ ∀ b ∈ settings, b.pin = a.pin := by
          simp [or_imp, forall_and]
        rw [pinByte_mux_self, within_or, ih, if_pos rfl, hpins, List.forall_mem_cons]
        tauto
      · rw [pinByte_mux_other _ _ _ (Ne.symm hpin), if_neg hpin]
        simp [hpin]

/-- The pin configured last holds its configuration if nothing else was kept. -/
theorem configured_snoc_iff :
    Configured port (settings ++ [a]) ↔ PinUndisturbed port (settings ++ [a]) a.pin a.conf := by
  have hkept : Within (pinByte (gpioConfigure port (settings ++ [a])) a.pin) a.conf ↔
      (∀ b ∈ finalRun a.pin (settings ++ [a]), Within b.conf a.conf) ∧
        ((∀ b ∈ settings ++ [a], b.pin = a.pin) → Within (pinByte port a.pin) a.conf) :=
    kept_within_iff
  have hself : pinByte (gpioConfigure port (settings ++ [a])) a.pin =
      pinByte (gpioConfigure port settings) a.pin ||| a.conf := by
    rw [gpioConfigure_snoc, pinByte_mux_self]
  have hother : ∀ q, q ≠ a.pin → pinByte (gpioConfigure port (settings ++ [a])) q = 0 := by
    intro q hq
    rw [gpioConfigure_snoc, pinByte_mux_other _ _ _ hq]
  constructor
  · intro h
    have hlast := h a.pin
    rw [lastConf_snoc, if_pos rfl] at hlast
    rw [hlast] at hkept
    obtain ⟨hrun, hinitial⟩ := hkept.mp within_self
    exact ⟨fun q hq => (h q).symm.trans (hother q hq), hrun, hinitial⟩
  · intro h q
    by_cases hq : q = a.pin
    · subst hq
      have hwithin := hkept.mpr ⟨h.run, h.initial⟩
      rw [hself, within_or] at hwithin
      rw [hself, lastConf_snoc, if_pos rfl]
      exact hwithin.1
    · rw [hother q hq, h.others q hq]

theorem configured_iff (port : UInt32) (settings : List PinSetting) :
    Configured port settings ↔
      ∀ a, settings.getLast? = some a → PinUndisturbed port settings a.pin a.conf := by
  rcases List.eq_nil_or_concat settings with rfl | ⟨before, last, rfl⟩
  · simp [Configured, gpioConfigure, lastConf]
  · simp [configured_snoc_iff]

/-- Two settings of different pins commute when they set nothing. -/
theorem mux_comm_iff (port : UInt32) {p q : GpioPin} (hne : p ≠ q) (c d : UInt8) :
    gpioPinMux (gpioPinMux port c p) d q = gpioPinMux (gpioPinMux port d q) c p ↔
      c = 0 ∧ d = 0 := by
  constructor
  · intro h
    have hp := congrArg (pinByte · p) h
    have hq := congrArg (pinByte · q) h
    simp only [pinByte_mux_self, pinByte_mux_other _ _ _ hne, pinByte_mux_other _ _ _ hne.symm,
      UInt8.zero_or] at hp hq
    exact ⟨hp.symm, hq⟩
  · rintro ⟨rfl, rfl⟩
    apply eq_of_pinByte
    intro r
    by_cases hp : r = p
    · simp [hp, pinByte_mux_self, pinByte_mux_other _ _ _ hne]
    · by_cases hq : r = q
      · simp [hq, pinByte_mux_self, pinByte_mux_other _ _ _ hne.symm]
      · rw [pinByte_mux_other _ _ _ hp, pinByte_mux_other _ _ _ hq]

end Sequences

/-- For every register and every sequence of settings, the pins hold their last
configurations if and only if, with one pin configured last, all others should
hold zero and nothing the pin's byte kept lies outside its configuration.
Settings of different pins commute only when both are zero. -/
theorem gpio_pin_mux_iff (port : UInt32) :
    (∀ settings, Configured port settings ↔
      ∀ a, settings.getLast? = some a → PinUndisturbed port settings a.pin a.conf) ∧
    ∀ p q, p ≠ q → ∀ c d,
      gpioPinMux (gpioPinMux port c p) d q = gpioPinMux (gpioPinMux port d q) c p ↔
        c = 0 ∧ d = 0 :=
  ⟨configured_iff port, fun _ _ hne => mux_comm_iff port hne⟩

/-- Pin 0 is an output when `ccu4_pwm_open` configures pin 5, its neighbour in
the register: pin 0 of the register becomes an input. -/
theorem gpio_neighbour_cleared :
    let settings := [⟨.pi0, gpioOutputPp⟩, ⟨.pi1, gpioOutputPp ||| gpioOutputAlt4⟩]
    pinByte (gpioConfigure 0 settings) .pi0 = 0 ∧ lastConf 0 .pi0 settings = 0x80 ∧
      ¬ Configured 0 settings ∧
      gpioConfigure 0 settings ≠ gpioConfigure 0 settings.reverse := by
  intro settings
  have hcleared : pinByte (gpioConfigure 0 settings) .pi0 = 0 := by decide
  refine ⟨hcleared, by decide, ?_, by decide⟩
  intro h
  have hlast := h .pi0
  rw [hcleared] at hlast
  exact absurd hlast (by decide)

/-- From the reset value of the register, `ccu4_pwm_open` alone does what it should. -/
theorem gpio_pin_mux_iff_pwm :
    Configured 0 [⟨.pi1, gpioOutputPp ||| gpioOutputAlt4⟩] ∧
      gpioPinMux (gpioPinMux 0 0 .pi0) 0 .pi1 = gpioPinMux (gpioPinMux 0 0 .pi1) 0 .pi0 := by
  refine ⟨?_, ((gpio_pin_mux_iff 0).2 .pi0 .pi1 (by decide) 0 0).mpr ⟨rfl, rfl⟩⟩
  apply ((gpio_pin_mux_iff 0).1 _).mpr
  rintro a ⟨⟩
  refine ⟨?_, ?_, ?_⟩
  · intro q hq
    cases q <;> first | decide | exact absurd rfl hq
  · simp [finalRun]
  · exact fun _ => within_zero

end PascalScheduler
