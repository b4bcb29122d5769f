import Homeworks.Hardware.Main

/-!
# Ports and lists

A device that has been added is the device of one port and an entry of the list of its category.
-/

namespace Hardware

open Java (Text)

namespace HWSystem

variable {s : HWSystem} {i j k : Nat} {c : Category} {device device' : Device} {portId devId : Int}

/-- The device of a port, if there is one. -/
def connected (s : HWSystem) (i : Nat) : Option Device := s.ports[i]?.bind Port.device

/-- The protocol of a port. -/
def protocolAt (s : HWSystem) (i : Nat) : Option Protocol := s.ports[i]?.map Port.protocol

/-- The tables agree. -/
structure Sound (s : HWSystem) : Prop where
  listed : ∀ i device, s.connected i = some device →
    (0 ≤ device.devId ∧ device.devId < s.max device.type.category)
      ∧ s.devices device.type.category device.devId.toNat = some device
  connected : ∀ c k device, s.devices c k = some device →
    device.type.category = c ∧ device.devId = k ∧ ∃ i, s.connected i = some device
  unique : ∀ i j device device', s.connected i = some device → s.connected j = some device' →
    device.ref = device'.ref → i = j
  created : ∀ i device, s.connected i = some device → device.ref < s.created
  protocol : ∀ i device, s.connected i = some device → s.protocolAt i = some device.protocol

/-! ### Ports -/

theorem connected_setDevice (h : i < s.ports.length) (device : Option Device) (j : Nat) :
  (s.setDevice i device).connected j = if j = i then device else s.connected j
  := by
  rw [connected, setDevice, List.getElem?_modify, Int.toNat_natCast, connected]
  by_cases hj : j = i
  · obtain rfl := hj
    simp [List.getElem?_eq_getElem h]
  · have hij : i ≠ j := fun heq => hj heq.symm
    simp [hj, hij]

theorem protocolAt_setDevice (device : Option Device) (j : Nat) :
  (s.setDevice portId device).protocolAt j = s.protocolAt j
  := by
  rw [protocolAt, setDevice, List.getElem?_modify, protocolAt]
  cases s.ports[j]? with
  | none => rfl
  | some port =>
      by_cases hj : portId.toNat = j <;> simp [hj]

/-- A port with a valid id. -/
theorem of_getPort {port : Port} (h : s.getPort portId = some port) :
  ∃ i : Nat, portId = i ∧ s.ports[i]? = some port
  := by
  rw [getPort] at h
  split at h
  · rename_i hpos
    exact ⟨portId.toNat, (Int.toNat_of_nonneg hpos).symm, h⟩
  · cases h

/-! ### Operations -/

/-- A device that has been created is connected to a port. -/
def plug (s : HWSystem) (portId : Int) (device : Device) : HWSystem where
  ports := (s.setDevice portId (some device)).ports
  devices := Function.update s.devices device.type.category
    (Function.update (s.devices device.type.category) device.devId.toNat (some device))
  max := s.max
  state := Function.update s.state device.ref .OFF
  created := s.created + 1

def unplug (s : HWSystem) (portId : Int) (device : Device) : HWSystem where
  ports := (s.setDevice portId none).ports
  devices := Function.update s.devices device.type.category
    (Function.update (s.devices device.type.category) device.devId.toNat none)
  max := s.max
  state := s.state
  created := s.created

theorem addDev_eq {devType : Text} {t : DeviceType} {port : Port}
    (hname : DeviceType.ofName devType = some t) (hport : s.getPort portId = some port)
    (hfree : port.device = none) (hvalid : 0 ≤ devId ∧ devId < s.max t.category)
    (hid : s.devices t.category devId.toNat = none) (haccepts : port.protocol.name ∈ t.accepts) :
  s.addDev devType portId devId
    = .ok (true, s.plug portId ⟨s.created, t, port.protocol, devId⟩, [.out "Device added.".toList])
  := by
  have hid' : (!s.isValidDeviceId t devId) = false := by simpa [isValidDeviceId] using hvalid
  have hget : s.get t.category devId = .ok none := by rw [get, if_pos hvalid, hid]
  have hset : (setDevice { s with
        state := Function.update s.state s.created .OFF
        created := s.created + 1 } portId (some ⟨s.created, t, port.protocol, devId⟩)).set
      t.category devId (some ⟨s.created, t, port.protocol, devId⟩)
      = .ok (s.plug portId ⟨s.created, t, port.protocol, devId⟩) := if_pos hvalid
  rw [addDev, hname]
  dsimp only
  rw [hport]
  dsimp only
  rw [hfree, hid', hget]
  change (if port.protocol.name ∉ t.accepts then _ else _) = _
  rw [if_neg (not_not.mpr haccepts), hset]
  rfl

/-- A device is added, or nothing changes. -/
theorem addDev_cases (s : HWSystem) (devType : Text) (portId devId : Int) :
  (∃ lines, s.addDev devType portId devId = .ok (false, s, lines))
    ∨ ∃ t port lines, DeviceType.ofName devType = some t ∧ s.getPort portId = some port
      ∧ port.device = none ∧ (0 ≤ devId ∧ devId < s.max t.category)
      ∧ s.devices t.category devId.toNat = none ∧ port.protocol.name ∈ t.accepts
      ∧ s.addDev devType portId devId
        = .ok (true, s.plug portId ⟨s.created, t, port.protocol, devId⟩, lines)
  := by
  cases hname : DeviceType.ofName devType with
  | none =>
      rw [addDev, hname]
      exact .inl ⟨_, rfl⟩
  | some t =>
      cases hport : s.getPort portId with
      | none =>
          rw [addDev, hname, hport]
          exact .inl ⟨_, rfl⟩
      | some port =>
          obtain ⟨protocol, _ | device⟩ := port
          · by_cases hvalid : 0 ≤ devId ∧ devId < s.max t.category
            · have hid' : (!s.isValidDeviceId t devId) = false := by
                simpa [isValidDeviceId] using hvalid
              have hget : s.get t.category devId = .ok (s.devices t.category devId.toNat) :=
                if_pos hvalid
              cases hid : s.devices t.category devId.toNat with
              | some existing =>
                  rw [addDev, hname, hport]
                  simp only [hid', hget, hid]
                  exact .inl ⟨_, rfl⟩
              | none =>
                  by_cases haccepts : protocol.name ∈ t.accepts
                  · exact .inr ⟨t, ⟨protocol, none⟩, _, rfl, rfl, rfl, hvalid, hid, haccepts,
                      addDev_eq hname hport rfl hvalid hid haccepts⟩
                  · rw [addDev, hname, hport]
                    simp only [hid', hget, hid]
                    exact .inl ⟨_, if_pos haccepts⟩
            · have hid' : (!s.isValidDeviceId t devId) = true := by
                rw [isValidDeviceId, Bool.not_eq_true', ← Bool.not_eq_true]
                simpa using hvalid
              rw [addDev, hname, hport]
              simp only [hid']
              exact .inl ⟨_, rfl⟩
          · rw [addDev, hname, hport]
            exact .inl ⟨_, rfl⟩

/-- A device that is OFF is removed, or nothing changes. -/
theorem rmDev_cases (hs : s.Sound) (portId : Int) :
  (∃ lines, s.rmDev portId = .ok (false, s, lines))
    ∨ ∃ i device lines, portId = (i : Nat) ∧ s.connected i = some device ∧ s.state device.ref = .OFF
      ∧ s.rmDev portId = .ok (true, s.unplug portId device, lines)
  := by
  rw [rmDev]
  cases hport : s.getPort portId with
  | none => exact .inl ⟨_, rfl⟩
  | some port =>
      obtain ⟨i, rfl, hi⟩ := of_getPort hport
      obtain ⟨protocol, _ | device⟩ := port
      · exact .inl ⟨_, rfl⟩
      · have hconnected : s.connected i = some device := by rw [connected, hi]; rfl
        cases hstate : s.state device.ref with
        | ON => exact .inl ⟨_, if_pos hstate⟩
        | OFF =>
            right
            have hset : s.set device.type.category device.devId none
                = .ok { s with devices := (s.unplug i device).devices } :=
              if_pos (hs.listed i device hconnected).1
            refine ⟨i, device, [.out "Device removed.".toList], rfl, hconnected, hstate, ?_⟩
            dsimp only
            rw [hstate, if_neg (by decide), hset]
            rfl

/-- A device is switched, or there is an exception if it need not be; this is an error message for
an `OLED`. -/
theorem turnON_cases (s : HWSystem) (portId : Int) :
  (∃ state lines, s.turnON portId = .ok ({ s with state := state }, lines))
    ∨ ∃ i device, portId = (i : Nat) ∧ s.connected i = some device ∧ s.state device.ref = .ON
      ∧ device.type ≠ .OLED
      ∧ s.turnON portId = .error (device.type.getName ++ " is already on".toList)
  := by
  rw [turnON]
  cases hport : s.getPort portId with
  | none => exact .inl ⟨s.state, _, rfl⟩
  | some port =>
      obtain ⟨i, rfl, hi⟩ := of_getPort hport
      obtain ⟨protocol, _ | device⟩ := port
      · exact .inl ⟨s.state, _, rfl⟩
      · have hconnected : s.connected i = some device := by rw [connected, hi]; rfl
        dsimp only
        rw [turnOnDevice]
        by_cases hstate : s.state device.ref = .ON
        · rw [if_pos hstate]
          by_cases holed : device.type = .OLED
          · exact .inl ⟨s.state, _, if_pos holed⟩
          · exact .inr ⟨i, device, rfl, hconnected, hstate, holed, if_neg holed⟩
        · exact .inl ⟨_, _, if_neg hstate⟩

theorem turnOFF_cases (s : HWSystem) (portId : Int) :
  (∃ state lines, s.turnOFF portId = .ok ({ s with state := state }, lines))
    ∨ ∃ i device, portId = (i : Nat) ∧ s.connected i = some device ∧ s.state device.ref = .OFF
      ∧ device.type ≠ .OLED
      ∧ s.turnOFF portId = .error (device.type.getName ++ " is already off".toList)
  := by
  rw [turnOFF]
  cases hport : s.getPort portId with
  | none => exact .inl ⟨s.state, _, rfl⟩
  | some port =>
      obtain ⟨i, rfl, hi⟩ := of_getPort hport
      obtain ⟨protocol, _ | device⟩ := port
      · exact .inl ⟨s.state, _, rfl⟩
      · have hconnected : s.connected i = some device := by rw [connected, hi]; rfl
        dsimp only [Option.bind_some]
        rw [turnOffDevice]
        by_cases hstate : s.state device.ref = .OFF
        · rw [if_pos hstate]
          by_cases holed : device.type = .OLED
          · exact .inl ⟨s.state, _, if_pos holed⟩
          · exact .inr ⟨i, device, rfl, hconnected, hstate, holed, if_neg holed⟩
        · exact .inl ⟨_, _, if_neg hstate⟩

/-! ### Tables that agree -/

theorem connected_plug (h : i < s.ports.length) (device : Device) (j : Nat) :
  (s.plug i device).connected j = if j = i then some device else s.connected j
  := connected_setDevice h (some device) j

theorem connected_unplug (h : i < s.ports.length) (device : Device) (j : Nat) :
  (s.unplug i device).connected j = if j = i then none else s.connected j
  := connected_setDevice h none j

theorem devices_update {value : Option Device} (h : 0 ≤ device.devId) :
  Function.update s.devices device.type.category
      (Function.update (s.devices device.type.category) device.devId.toNat value) c k
    = if device.type.category = c ∧ device.devId = k then value else s.devices c k
  := by
  by_cases hc : c = device.type.category
  · subst hc
    rw [Function.update_self]
    by_cases hk : k = device.devId.toNat
    · subst hk
      rw [Function.update_self, if_pos ⟨rfl, (Int.toNat_of_nonneg h).symm⟩]
    · rw [Function.update_of_ne hk, if_neg]
      rintro ⟨-, heq⟩
      exact hk (by omega)
  · rw [Function.update_of_ne hc, if_neg]
    rintro ⟨heq, -⟩
    exact hc heq.symm

theorem devices_plug (h : 0 ≤ device.devId) :
  (s.plug portId device).devices c k
    = if device.type.category = c ∧ device.devId = k then some device else s.devices c k
  := devices_update h

theorem devices_unplug (h : 0 ≤ device.devId) :
  (s.unplug portId device).devices c k
    = if device.type.category = c ∧ device.devId = k then none else s.devices c k
  := devices_update h

theorem lt_of_connected (h : s.connected i = some device) :
  i < s.ports.length
  := by
  rw [connected] at h
  by_contra hle
  rw [List.getElem?_eq_none (not_lt.mp hle)] at h
  cases h

theorem sound_new (max : Category → Int) (ports : List Port)
    (h : ∀ port ∈ ports, port.device = none) :
  Sound { new max with ports := ports }
  := by
  have hnone : ∀ i, connected { new max with ports := ports } i = none := by
    intro i
    cases hi : ports[i]? with
    | none =>
        rw [connected, hi]
        rfl
    | some port =>
        rw [connected, hi]
        exact h port (List.mem_of_getElem? hi)
  constructor
  · intro i device hi
    rw [hnone] at hi
    cases hi
  · rintro c k device ⟨⟩
  · intro i j device device' hi
    rw [hnone] at hi
    cases hi
  · intro i device hi
    rw [hnone] at hi
    cases hi
  · intro i device hi
    rw [hnone] at hi
    cases hi

theorem Sound.state (hs : s.Sound) (state : Nat → State) :
  Sound { s with state := state }
  := ⟨hs.listed, hs.connected, hs.unique, hs.created, hs.protocol⟩

/-- A device has been created and is added. -/
theorem Sound.plug (hs : s.Sound) {port : Port} {t : DeviceType} (hport : s.ports[i]? = some port)
    (hfree : port.device = none) (hdevId : 0 ≤ devId ∧ devId < s.max t.category)
    (hid : s.devices t.category devId.toNat = none) :
  (s.plug i ⟨s.created, t, port.protocol, devId⟩).Sound
  := by
  have hi : i < s.ports.length := (List.getElem?_eq_some_iff.mp hport).1
  have hnone : s.connected i = none := by rw [HWSystem.connected, hport, Option.bind_some, hfree]
  have hpos : 0 ≤ (Device.mk s.created t port.protocol devId).devId := hdevId.1
  constructor
  · intro j device hj
    rw [connected_plug hi] at hj
    split at hj
    · cases hj
      refine ⟨hdevId, ?_⟩
      rw [devices_plug hpos, if_pos ⟨rfl, (Int.toNat_of_nonneg hdevId.1).symm⟩]
    · obtain ⟨hrange, hlisted⟩ := hs.listed j device hj
      refine ⟨hrange, ?_⟩
      rw [devices_plug hpos, if_neg, hlisted]
      rintro ⟨hcategory, hdev⟩
      dsimp only at hcategory hdev
      rw [hcategory, hdev, Int.toNat_natCast, hlisted] at hid
      cases hid
  · intro c k device hk
    rw [devices_plug hpos] at hk
    split at hk
    · rename_i heq
      cases hk
      exact ⟨heq.1, heq.2, i, by rw [connected_plug hi, if_pos rfl]⟩
    · obtain ⟨hcategory, hdev, j, hj⟩ := hs.connected c k device hk
      refine ⟨hcategory, hdev, j, ?_⟩
      rw [connected_plug hi, if_neg, hj]
      rintro rfl
      rw [hnone] at hj
      cases hj
  · intro j j' device device' hj hj' href
    rw [connected_plug hi] at hj hj'
    split at hj
    · split at hj'
      · rw [‹j = i›, ‹j' = i›]
      · cases hj
        have hlt := hs.created j' device' hj'
        dsimp only at href
        omega
    · split at hj'
      · cases hj'
        have hlt := hs.created j device hj
        dsimp only at href
        omega
      · exact hs.unique j j' device device' hj hj' href
  · intro j device hj
    rw [connected_plug hi] at hj
    split at hj
    · cases hj
      exact Nat.lt_succ_self _
    · exact Nat.lt_succ_of_lt (hs.created j device hj)
  · intro j device hj
    rw [connected_plug hi] at hj
    change (s.setDevice i _).protocolAt j = _
    rw [protocolAt_setDevice]
    split at hj
    · rename_i hji
      cases hj
      rw [hji, protocolAt, hport]
      rfl
    · exact hs.protocol j device hj

theorem Sound.unplug (hs : s.Sound) (hdevice : s.connected i = some device) :
  (s.unplug i device).Sound
  := by
  have hi := lt_of_connected hdevice
  obtain ⟨hrange, hlisted⟩ := hs.listed i device hdevice
  constructor
  · intro j device' hj
    rw [connected_unplug hi] at hj
    split at hj
    · cases hj
    · obtain ⟨hrange', hlisted'⟩ := hs.listed j device' hj
      refine ⟨hrange', ?_⟩
      rw [devices_unplug hrange.1, if_neg, hlisted']
      rintro ⟨hcategory, hdev⟩
      rw [← hcategory, ← Int.toNat_natCast device'.devId.toNat, ← hdev, hlisted] at hlisted'
      cases hlisted'
      exact ‹¬ j = i› (hs.unique j i device device hj hdevice rfl)
  · intro c k device' hk
    rw [devices_unplug hrange.1] at hk
    split at hk
    · cases hk
    · rename_i hne
      obtain ⟨hcategory, hdev, j, hj⟩ := hs.connected c k device' hk
      refine ⟨hcategory, hdev, j, ?_⟩
      rw [connected_unplug hi, if_neg, hj]
      rintro rfl
      rw [hdevice] at hj
      cases hj
      exact hne ⟨hcategory, hdev⟩
  · intro j j' device₁ device₂ hj hj' href
    rw [connected_unplug hi] at hj hj'
    split at hj
    · cases hj
    · split at hj'
      · cases hj'
      · exact hs.unique j j' device₁ device₂ hj hj' href
  · intro j device' hj
    rw [connected_unplug hi] at hj
    split at hj
    · cases hj
    · exact hs.created j device' hj
  · intro j device' hj
    rw [connected_unplug hi] at hj
    change (s.setDevice i _).protocolAt j = _
    rw [protocolAt_setDevice]
    split at hj
    · cases hj
    · exact hs.protocol j device' hj

/-! ### Calls -/

/-- The system after a call; an exception changes nothing. -/
def step (s : HWSystem) (call : Call) : HWSystem :=
  match s.perform call with
  | .ok r => r.1
  | .error _ => s

/-- The system after some calls. -/
def run (s : HWSystem) (calls : List Call) : HWSystem := calls.foldl step s

/-- A call switches devices, or it adds one, or it removes one that is OFF. -/
inductive Steps (s : HWSystem) : HWSystem → Prop
  | switch (state : Nat → State) : Steps s { s with state := state }
  | plug {i : Nat} {port : Port} {t : DeviceType} {devId : Int} (hport : s.ports[i]? = some port)
      (hfree : port.device = none) (hdevId : 0 ≤ devId ∧ devId < s.max t.category)
      (hid : s.devices t.category devId.toNat = none) (haccepts : port.protocol.name ∈ t.accepts) :
      Steps s (s.plug i ⟨s.created, t, port.protocol, devId⟩)
  | unplug {i : Nat} {device : Device} (hdevice : s.connected i = some device)
      (hoff : s.state device.ref = .OFF) : Steps s (s.unplug i device)

theorem step_of_map {lines : Except Text (List Line)} {call : Call}
    (h : s.perform call = lines.map fun lines => (s, lines)) :
  s.step call = s
  := by
  rw [step, h]
  cases lines <;> rfl

theorem steps (hs : s.Sound) (call : Call) :
  Steps s (s.step call)
  := by
  have hsame : Steps s s := .switch s.state
  cases call with
  | turnON portId =>
      rcases s.turnON_cases portId with ⟨state, lines, heq⟩ | ⟨_, _, _, _, _, _, heq⟩
      · rw [step, perform, heq]
        exact .switch state
      · rw [step, perform, heq]
        exact hsame
  | turnOFF portId =>
      rcases s.turnOFF_cases portId with ⟨state, lines, heq⟩ | ⟨_, _, _, _, _, _, heq⟩
      · rw [step, perform, heq]
        exact .switch state
      · rw [step, perform, heq]
        exact hsame
  | addDev devType portId devId =>
      rcases s.addDev_cases devType portId devId with
        ⟨lines, heq⟩ | ⟨t, port, lines, -, hport, hfree, hdevId, hid, haccepts, heq⟩
      · rw [step, perform, heq]
        exact hsame
      · obtain ⟨i, rfl, hi⟩ := of_getPort hport
        rw [step, perform, heq]
        exact .plug hi hfree hdevId hid haccepts
  | rmDev portId =>
      rcases rmDev_cases hs portId with ⟨lines, heq⟩ | ⟨i, device, lines, rfl, hdevice, hoff, heq⟩
      · rw [step, perform, heq]
        exact hsame
      · rw [step, perform, heq]
        exact .unplug hdevice hoff
  | listPorts => exact hsame
  | listDevices deviceType => exact hsame
  | readSensor devId =>
      rw [step_of_map rfl]
      exact hsame
  | printDisplay devId data =>
      rw [step_of_map rfl]
      exact hsame
  | readWireless devId =>
      rw [step_of_map rfl]
      exact hsame
  | writeWireless devId data =>
      rw [step_of_map rfl]
      exact hsame
  | setMotorSpeed devId speed =>
      rw [step_of_map rfl]
      exact hsame
  | exit => exact hsame

theorem Sound.of_steps (hs : s.Sound) {s' : HWSystem} (h : Steps s s') :
  s'.Sound
  := by
  cases h with
  | switch state => exact hs.state state
  | plug hport hfree hdevId hid => exact hs.plug hport hfree hdevId hid
  | unplug hdevice => exact hs.unplug hdevice

theorem Sound.run (hs : s.Sound) (calls : List Call) :
  (s.run calls).Sound
  := by
  induction calls generalizing s with
  | nil => exact hs
  | cons call calls ih => exact ih (hs.of_steps (steps hs call))

/-- What holds at first and is kept by every step holds after any calls. -/
theorem run_induction {P : HWSystem → Prop} (hs : s.Sound) (h : P s)
    (hstep : ∀ s s' : HWSystem, s.Sound → P s → Steps s s' → P s') (calls : List Call) :
  P (s.run calls)
  := by
  induction calls generalizing s with
  | nil => exact h
  | cons call calls ih =>
      have hsteps := steps hs call
      exact ih (hs.of_steps hsteps) (hstep _ _ hs h hsteps)

/-- A device that is ON stays connected. -/
theorem connected_of_steps {s' : HWSystem} (h : Steps s s')
    (hdevice : s.connected i = some device) (hon : s.state device.ref = .ON) :
  s'.connected i = some device
  := by
  cases h with
  | switch state => exact hdevice
  | plug hport hfree hdevId hid =>
      rw [connected_plug (List.getElem?_eq_some_iff.mp hport).1, if_neg, hdevice]
      rintro rfl
      rw [connected, hport, Option.bind_some, hfree] at hdevice
      cases hdevice
  | unplug hdevice' hoff =>
      rw [connected_unplug (lt_of_connected hdevice'), if_neg, hdevice]
      rintro rfl
      rw [hdevice'] at hdevice
      cases hdevice
      rw [hon] at hoff
      cases hoff

end HWSystem

end Hardware
