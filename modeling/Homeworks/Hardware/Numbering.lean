import Homeworks.Hardware.Configuration

/-!
# The numbers of the ports

The port that a protocol records is the position of its name in the configuration, and names that
are not valid count.  The index of the port does not count them.
-/

namespace Hardware

open Java (Text)

/-! ### Ports by their names -/

/-- A name of a protocol, for which there is a port. -/
def valid (name : Text) : Bool := (protocolName (Java.trim name)).isSome

theorem valid_eq_false {name : Text} (h : protocolName (Java.trim name) = none) :
  valid name = false
  := by rw [valid, h, Option.isSome_none]

theorem valid_eq_true {name : Text} {p : ProtocolName}
    (h : protocolName (Java.trim name) = some p) :
  valid name = true
  := by rw [valid, h, Option.isSome_some]

theorem portsFrom_cons_none {k : Nat} {name : Text} (names : List Text)
    (h : protocolName (Java.trim name) = none) :
  portsFrom k (name :: names) = portsFrom (k + 1) names
  := by
  rw [portsFrom, h]
  rfl

theorem portsFrom_cons_some {k : Nat} {name : Text} {p : ProtocolName} (names : List Text)
    (h : protocolName (Java.trim name) = some p) :
  portsFrom k (name :: names) = ⟨⟨p, k⟩, none⟩ :: portsFrom (k + 1) names
  := by
  rw [portsFrom, h]
  rfl

/-- A port is the one of a name; its index is the number of the valid names before it. -/
theorem exists_of_portsFrom {k i : Nat} {names : List Text} {port : Port}
    (h : (portsFrom k names)[i]? = some port) :
  ∃ before name after p, names = before ++ name :: after ∧ protocolName (Java.trim name) = some p
    ∧ port = ⟨⟨p, (k + before.length : Nat)⟩, none⟩ ∧ i = before.countP valid
  := by
  induction names generalizing k i with
  | nil => cases h
  | cons name names ih =>
      cases hname : protocolName (Java.trim name) with
      | none =>
          rw [portsFrom_cons_none names hname] at h
          obtain ⟨before, name', after, p, rfl, hp, rfl, rfl⟩ := ih h
          refine ⟨name :: before, name', after, p, rfl, hp, ?_, ?_⟩
          · rw [List.length_cons, Nat.add_right_comm, Nat.add_assoc]
          · rw [List.countP_cons_of_neg]
            rw [valid_eq_false hname]
            exact Bool.false_ne_true
      | some p =>
          rw [portsFrom_cons_some names hname] at h
          cases i with
          | zero =>
              refine ⟨[], name, names, p, rfl, hname, ?_, rfl⟩
              exact (Option.some.inj h).symm
          | succ i =>
              obtain ⟨before, name', after, p, rfl, hp, rfl, rfl⟩ := ih h
              refine ⟨name :: before, name', after, p, rfl, hp, ?_, ?_⟩
              · rw [List.length_cons, Nat.add_right_comm, Nat.add_assoc]
              · rw [List.countP_cons_of_pos (valid_eq_true hname)]

theorem portsFrom_append (k : Nat) (names after : List Text) :
  portsFrom k (names ++ after) = portsFrom k names ++ portsFrom (k + names.length) after
  := by
  induction names generalizing k with
  | nil => rfl
  | cons name names ih =>
      rw [List.cons_append, portsFrom, portsFrom, ih (k + 1), List.append_assoc, List.length_cons,
        Nat.add_right_comm, Nat.add_assoc k]

theorem length_portsFrom (k : Nat) (names : List Text) :
  (portsFrom k names).length = names.countP valid
  := by
  induction names generalizing k with
  | nil => rfl
  | cons name names ih =>
      cases hname : protocolName (Java.trim name) with
      | none =>
          rw [portsFrom_cons_none names hname, List.countP_cons_of_neg, ih]
          rw [valid_eq_false hname]
          exact Bool.false_ne_true
      | some p =>
          rw [portsFrom_cons_some names hname, List.length_cons, ih,
            List.countP_cons_of_pos (valid_eq_true hname)]

theorem getElem?_portsFrom {name : Text} {p : ProtocolName} (k : Nat) (before after : List Text)
    (h : protocolName (Java.trim name) = some p) :
  (portsFrom k (before ++ name :: after))[before.countP valid]?
    = some ⟨⟨p, (k + before.length : Nat)⟩, none⟩
  := by
  rw [portsFrom_append, portsFrom_cons_some after h, ← length_portsFrom k before,
    List.getElem?_append_right (Nat.le_refl _), Nat.sub_self]
  rfl

/-- There may be a device for the ports of a protocol. -/
def Usable (max : Category → Int) (p : ProtocolName) : Prop :=
  ∃ t : DeviceType, p ∈ t.accepts ∧ 0 < max t.category

theorem ofName_getName (t : DeviceType) :
  DeviceType.ofName t.getName = some t
  := by cases t <;> decide

namespace HWSystem

variable {s s' s'' : HWSystem}

/-- The port that is printed for a device is the one where it is. -/
def Numbered (s : HWSystem) : Prop :=
  ∀ c, ∀ device ∈ s.listed c,
    ∃ i : Nat, device.protocol.portId = i ∧ ∀ j, s.connected j = some device ↔ j = i

/-- What calls keep. -/
structure Kept (s s' : HWSystem) : Prop where
  max : s'.max = s.max
  protocolAt : ∀ i, s'.protocolAt i = s.protocolAt i
  accepts : ∀ i device, s'.connected i = some device → device.protocol.name ∈ device.type.accepts

theorem Kept.of_steps (h : Kept s s') (hsteps : Steps s' s'') :
  Kept s s''
  := by
  cases hsteps with
  | switch state => exact ⟨h.max, h.protocolAt, h.accepts⟩
  | @plug i port t devId hport hfree hdevId hid haccepts =>
      refine ⟨h.max, ?_, ?_⟩
      · intro j
        exact (protocolAt_setDevice _ j).trans (h.protocolAt j)
      · intro j device hj
        rw [connected_plug (List.getElem?_eq_some_iff.mp hport).1] at hj
        split at hj
        · cases hj
          exact haccepts
        · exact h.accepts j device hj
  | @unplug i device hdevice hoff =>
      refine ⟨h.max, ?_, ?_⟩
      · intro j
        exact (protocolAt_setDevice _ j).trans (h.protocolAt j)
      · intro j device' hj
        rw [connected_unplug (lt_of_connected hdevice)] at hj
        split at hj
        · cases hj
        · exact h.accepts j device' hj

theorem Kept.run (hs : s.Sound) (h : Kept s s) (calls : List Call) :
  Kept s (s.run calls)
  := run_induction hs h (fun _ _ _ hkept hsteps => hkept.of_steps hsteps) calls

variable {max : Category → Int} {names : List Text}

theorem kept_configured (max : Category → Int) (names : List Text) :
  Kept (configured max names) (configured max names)
  := by
  refine ⟨rfl, fun _ => rfl, ?_⟩
  intro i device hi
  rw [connected_configured] at hi
  cases hi

/-- The number of a device that is in a port is the position of the name of the protocol. -/
theorem exists_of_connected (calls : List Call) {i : Nat} {device : Device}
    (hi : ((configured max names).run calls).connected i = some device) :
  ∃ before name after p, names = before ++ name :: after ∧ protocolName (Java.trim name) = some p
    ∧ Usable max p ∧ device.protocol.portId = before.length ∧ i = before.countP valid
  := by
  have hsound := (sound_configured max names).run calls
  have hkept := (kept_configured max names).run (sound_configured max names) calls
  have hprotocol := hsound.protocol i device hi
  rw [hkept.protocolAt, protocolAt, Option.map_eq_some_iff] at hprotocol
  obtain ⟨port, hport, hdevice⟩ := hprotocol
  obtain ⟨before, name, after, p, heq, hp, rfl, rfl⟩ := exists_of_portsFrom hport
  refine ⟨before, name, after, p, heq, hp, ⟨device.type, ?_, ?_⟩, ?_, rfl⟩
  · have haccepts := hkept.accepts _ device hi
    rwa [← hdevice] at haccepts
  · obtain ⟨hpos, hlt⟩ := (hsound.listed _ device hi).1
    rw [hkept.max] at hlt
    exact lt_of_le_of_lt hpos hlt
  · rw [← hdevice, Nat.zero_add]

/-- A device is added to the port of a name. -/
theorem run_addDev {before after : List Text} {name : Text} {p : ProtocolName} {t : DeviceType}
    (hp : protocolName (Java.trim name) = some p) (haccepts : p ∈ t.accepts)
    (hmax : 0 < max t.category) :
  (configured max (before ++ name :: after)).run [.addDev t.getName (before.countP valid : Nat) 0]
    = (configured max (before ++ name :: after)).plug (before.countP valid : Nat)
        ⟨0, t, ⟨p, before.length⟩, 0⟩
  := by
  have hport : (configured max (before ++ name :: after)).getPort (before.countP valid : Nat)
      = some ⟨⟨p, before.length⟩, none⟩ := by
    rw [getPort, if_pos (Int.natCast_nonneg _), Int.toNat_natCast, configured,
      getElem?_portsFrom 0 before after hp, Nat.zero_add]
  rw [run, List.foldl_cons, List.foldl_nil, step, perform,
    addDev_eq (ofName_getName t) hport rfl ⟨Int.le_refl 0, hmax⟩ rfl haccepts]
  rfl

/-- The port of every device is printed if and only if no name that is not valid stands before one
of a protocol that some device can use. -/
theorem numbered_iff {configFile firstLine : Text} {lines : List Line}
    (h : loadConfiguration configFile = (some s, lines))
    (hfirst : (Java.lines configFile).head? = some firstLine) :
  (∀ calls : List Call, (s.run calls).Numbered)
    ↔ ∀ before name after p, protocols firstLine = before ++ name :: after →
        protocolName (Java.trim name) = some p → Usable s.max p → ∀ x ∈ before, valid x
  := by
  obtain ⟨line, hline, hs⟩ := exists_of_loadConfiguration h
  obtain rfl : line = firstLine := Option.some.inj (hline.symm.trans hfirst)
  generalize hmax : s.max = max at hs ⊢
  generalize protocols line = names at hs ⊢
  obtain rfl : s = configured max names := hs
  constructor
  · rintro hnumbered before name after p rfl hp ⟨t, haccepts, hlt⟩
    have hrun : (configured max (before ++ name :: after)).run
        [.addDev t.getName (before.countP valid : Nat) 0] = _ := run_addDev hp haccepts hlt
    have hn := hnumbered [.addDev t.getName (before.countP valid : Nat) 0]
    have hi := (List.getElem?_eq_some_iff.mp (getElem?_portsFrom 0 before after hp)).1
    rw [hrun] at hn
    have hmem : (⟨0, t, ⟨p, before.length⟩, 0⟩ : Device) ∈ ((configured max
        (before ++ name :: after)).plug (before.countP valid : Nat)
          ⟨0, t, ⟨p, before.length⟩, 0⟩).listed t.category := by
      refine List.mem_filterMap.mpr ⟨0, List.mem_range.mpr (Int.lt_toNat.mpr hlt), ?_⟩
      exact (devices_plug (Int.le_refl 0)).trans (if_pos ⟨rfl, rfl⟩)
    obtain ⟨i, hnumber, hconnected⟩ := hn t.category _ hmem
    have heq : before.countP valid = i := (hconnected _).mp <| by
      rw [connected_plug hi, if_pos rfl]
    rw [← List.countP_eq_length, heq]
    exact Int.ofNat.inj hnumber.symm
  · intro hvalid calls c device hdevice
    have hsound := (sound_configured max names).run calls
    obtain ⟨k, -, hk⟩ := List.mem_filterMap.mp hdevice
    obtain ⟨-, -, i, hi⟩ := hsound.connected c k device hk
    obtain ⟨before, name, after, p, heq, hp, husable, hnumber, hindex⟩ :=
      exists_of_connected calls hi
    refine ⟨i, ?_, ?_⟩
    · rw [hnumber, hindex, List.countP_eq_length.mpr (hvalid before name after p heq hp husable)]
    · intro j
      constructor
      · intro hj
        exact hsound.unique j i device device hj hi rfl
      · rintro rfl
        exact hi

theorem numbered_valid :
  ∃ s lines, loadConfiguration (oneEach "Port Configuration:I2C,SPI") = (some s, lines)
    ∧ ∀ calls : List Call, (s.run calls).Numbered
  := by
  have hlines : Java.lines (oneEach "Port Configuration:I2C,SPI")
      = oneEachLines "Port Configuration:I2C,SPI" := by decide +kernel
  obtain ⟨lines, h⟩ := loadConfiguration_oneEach hlines
  refine ⟨_, lines, h, (numbered_iff h (by rw [hlines]; rfl)).mpr ?_⟩
  have hvalid : ∀ x ∈ protocols "Port Configuration:I2C,SPI".toList, valid x := by decide
  intro before name after p heq hp husable x hx
  exact hvalid x (by rw [heq]; exact List.mem_append_left _ hx)

theorem numbered_not_invalid :
  ∃ s lines, loadConfiguration (oneEach "Port Configuration:X,I2C") = (some s, lines)
    ∧ ¬ (s.run [.addDev "LCD".toList 0 0]).Numbered
  := by
  have hlines : Java.lines (oneEach "Port Configuration:X,I2C")
      = oneEachLines "Port Configuration:X,I2C" := by decide +kernel
  obtain ⟨lines, h⟩ := loadConfiguration_oneEach hlines
  refine ⟨_, lines, h, ?_⟩
  have hnames : protocols "Port Configuration:X,I2C".toList = ["X".toList, "I2C".toList] := by
    decide
  intro hnumbered
  rw [hnames] at hnumbered
  have hmem : (⟨0, .LCD, ⟨.I2C, 1⟩, 0⟩ : Device) ∈ ((configured (limits 1 1 1 1)
      ["X".toList, "I2C".toList]).run [.addDev "LCD".toList 0 0]).listed .display := by
    decide
  obtain ⟨i, hi, hconnected⟩ := hnumbered .display _ hmem
  have hzero : 0 = i := (hconnected 0).mp (by decide)
  rw [← hzero] at hi
  exact absurd hi (by decide)

end HWSystem

end Hardware
