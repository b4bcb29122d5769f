import Homeworks.Hardware.Configuration

/-!
# Calls that keep the tables

A device that was added is in one port and at one place of the lists until it is removed, and a
device that is `ON` is not removed.  Only switching a device that need not be switched ends with an
exception.
-/

namespace Hardware

open Java (Text)

namespace HWSystem

variable {s : HWSystem} {i : Nat} {device : Device} {portId : Int} {message : Text}

/-! ### Exceptions -/

theorem connected_eq_some_iff :
  s.connected i = some device ↔ ∃ port, s.getPort i = some port ∧ port.device = some device
  := by
  rw [connected, getPort, if_pos (Int.natCast_nonneg i), Int.toNat_natCast, Option.bind_eq_some_iff]

theorem turnON_eq_error_iff :
  s.turnON portId = .error message
    ↔ ∃ i device, portId = (i : Nat) ∧ s.connected i = some device ∧ s.state device.ref = .ON
      ∧ device.type ≠ .OLED ∧ message = device.type.getName ++ " is already on".toList
  := by
  constructor
  · intro h
    rcases s.turnON_cases portId with ⟨state, lines, heq⟩ | ⟨i, device, hi, hdevice, hon, htype,
      heq⟩
    · rw [heq] at h
      cases h
    · rw [heq] at h
      exact ⟨i, device, hi, hdevice, hon, htype, (Except.error.inj h).symm⟩
  · rintro ⟨i, device, rfl, hdevice, hon, htype, rfl⟩
    obtain ⟨port, hport, hdevice⟩ := connected_eq_some_iff.mp hdevice
    rw [turnON, hport]
    dsimp only
    rw [hdevice]
    dsimp only
    rw [turnOnDevice, if_pos hon, if_neg htype]

theorem turnOFF_eq_error_iff :
  s.turnOFF portId = .error message
    ↔ ∃ i device, portId = (i : Nat) ∧ s.connected i = some device ∧ s.state device.ref = .OFF
      ∧ device.type ≠ .OLED ∧ message = device.type.getName ++ " is already off".toList
  := by
  constructor
  · intro h
    rcases s.turnOFF_cases portId with ⟨state, lines, heq⟩ | ⟨i, device, hi, hdevice, hoff, htype,
      heq⟩
    · rw [heq] at h
      cases h
    · rw [heq] at h
      exact ⟨i, device, hi, hdevice, hoff, htype, (Except.error.inj h).symm⟩
  · rintro ⟨i, device, rfl, hdevice, hoff, htype, rfl⟩
    obtain ⟨port, hport, hdevice⟩ := connected_eq_some_iff.mp hdevice
    rw [turnOFF, hport, Option.bind_some, hdevice]
    dsimp only
    rw [turnOffDevice, if_pos hoff, if_neg htype]

/-- Adding ends with a result, and changes nothing if it is `false`. -/
theorem exists_addDev (s : HWSystem) (devType : Text) (portId devId : Int) :
  ∃ added s' lines, s.addDev devType portId devId = .ok (added, s', lines)
    ∧ (added = false → s' = s)
  := by
  rcases s.addDev_cases devType portId devId with
    ⟨lines, heq⟩ | ⟨t, port, lines, -, -, -, -, -, -, heq⟩
  · exact ⟨false, s, lines, heq, fun _ => rfl⟩
  · exact ⟨true, _, lines, heq, Bool.noConfusion⟩

theorem exists_rmDev (hs : s.Sound) (portId : Int) :
  ∃ removed s' lines, s.rmDev portId = .ok (removed, s', lines) ∧ (removed = false → s' = s)
  := by
  rcases rmDev_cases hs portId with ⟨lines, heq⟩ | ⟨i, device, lines, -, -, -, heq⟩
  · exact ⟨false, s, lines, heq, fun _ => rfl⟩
  · exact ⟨true, _, lines, heq, Bool.noConfusion⟩

/-! ### Runs -/

/-- The places of the devices: an entry of a list is the device of one port, and the device of a
port is the entry of the list of its category with its id. -/
structure Bijective (s : HWSystem) : Prop where
  existsUnique : ∀ c k device, s.devices c k = some device → ∃! i, s.connected i = some device
  entry : ∀ i device, s.connected i = some device →
    s.get device.type.category device.devId = .ok (some device)

theorem Sound.bijective (hs : s.Sound) :
  s.Bijective
  := by
  constructor
  · intro c k device hk
    obtain ⟨-, -, i, hi⟩ := hs.connected c k device hk
    exact ⟨i, hi, fun j hj => hs.unique j i device device hj hi rfl⟩
  · intro i device hi
    obtain ⟨hrange, hentry⟩ := hs.listed i device hi
    rw [get, if_pos hrange, hentry]

/-- The tables agree after any calls; adding and removing end without an exception, and change
nothing if they are refused; the exceptions of switching are for devices that are switched already;
and a call leaves a device that is `ON` where it is. -/
theorem bijective_run {configFile : Text} {lines : List Line}
    (h : loadConfiguration configFile = (some s, lines)) (calls : List Call) :
  (s.run calls).Bijective
    ∧ (∀ devType portId devId, ∃ added s' lines,
        (s.run calls).addDev devType portId devId = .ok (added, s', lines)
          ∧ (added = false → s' = s.run calls))
    ∧ (∀ portId, ∃ removed s' lines, (s.run calls).rmDev portId = .ok (removed, s', lines)
        ∧ (removed = false → s' = s.run calls))
    ∧ (∀ portId message, (s.run calls).turnON portId = .error message
        ↔ ∃ i device, portId = (i : Nat) ∧ (s.run calls).connected i = some device
          ∧ (s.run calls).state device.ref = .ON ∧ device.type ≠ .OLED
          ∧ message = device.type.getName ++ " is already on".toList)
    ∧ (∀ portId message, (s.run calls).turnOFF portId = .error message
        ↔ ∃ i device, portId = (i : Nat) ∧ (s.run calls).connected i = some device
          ∧ (s.run calls).state device.ref = .OFF ∧ device.type ≠ .OLED
          ∧ message = device.type.getName ++ " is already off".toList)
    ∧ ∀ i device call, (s.run calls).connected i = some device →
    (s.run calls).state device.ref = .ON →
        ((s.run calls).step call).connected i = some device
  := by
  obtain ⟨firstLine, -, hs⟩ := exists_of_loadConfiguration h
  have hsound : (s.run calls).Sound := by
    rw [hs]
    exact (sound_configured _ _).run calls
  refine ⟨hsound.bijective, exists_addDev _, exists_rmDev hsound, ?_, ?_, ?_⟩
  · intro portId message
    exact turnON_eq_error_iff
  · intro portId message
    exact turnOFF_eq_error_iff
  · intro i device call hdevice hon
    exact connected_of_steps (steps hsound call) hdevice hon

theorem bijective_run_display :
  ∃ s lines, loadConfiguration (oneEach "Port Configuration:I2C,SPI") = (some s, lines)
    ∧ (s.run [.addDev "LCD".toList 0 0, .turnON 0, .rmDev 0]).Bijective
  := by
  have hlines : Java.lines (oneEach "Port Configuration:I2C,SPI")
      = oneEachLines "Port Configuration:I2C,SPI" := by decide +kernel
  obtain ⟨lines, h⟩ := loadConfiguration_oneEach hlines
  exact ⟨_, lines, h, (bijective_run h _).1⟩

theorem turnON_error :
  ∃ s lines, loadConfiguration (oneEach "Port Configuration:I2C,SPI") = (some s, lines)
    ∧ (s.run [.addDev "LCD".toList 0 0, .turnON 0]).turnON 0 = .error "LCD is already on".toList
  := by
  have hlines : Java.lines (oneEach "Port Configuration:I2C,SPI")
      = oneEachLines "Port Configuration:I2C,SPI" := by decide +kernel
  obtain ⟨lines, h⟩ := loadConfiguration_oneEach hlines
  have hnames : protocols "Port Configuration:I2C,SPI".toList = ["I2C".toList, "SPI".toList] := by
    decide
  refine ⟨_, lines, h, ?_⟩
  rw [hnames]
  refine turnON_eq_error_iff.mpr ⟨0, ⟨0, .LCD, ⟨.I2C, 0⟩, 0⟩, rfl, ?_, ?_, by decide, by decide⟩
  · decide
  · decide

end HWSystem

end Hardware
