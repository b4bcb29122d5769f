import Homeworks.Hardware.Tables

/-!
# The configuration

`Configuration`: the system that a configuration file describes.
-/

namespace Hardware

open Java (Text)

/-! ### Loading -/

/-- The rest of a string when all occurrences of another one are removed; the first `skip`
characters are a part of an occurrence. -/
def removeAll (target : Text) : Nat → Text → Text
  | _, [] => []
  | skip + 1, _ :: s => removeAll target skip s
  | 0, c :: s =>
      if target.isPrefixOf (c :: s) then
        removeAll target (target.length - 1) s
      else
        c :: removeAll target 0 s

/-- A limit, and what is printed. -/
def parseConfigLine (line : Text) : Int × List Line :=
  let parts := Java.split ':' line
  let printed :=
    if parts.length = 2 then [] else [.err ("Invalid line format ".toList ++ line)]
  match parts[1]?.bind fun part => Java.parseInt (Java.trim part) with
  | none => (0, printed ++ [.err ("Error parsing line: ".toList ++ line)])
  | some n => (n, printed)

/-- The class of a protocol with a name. -/
def protocolName (protocol : Text) : Option ProtocolName :=
  if protocol = "UART".toList then some .UART
  else if protocol = "SPI".toList then some .SPI
  else if protocol = "I2C".toList then some .I2C
  else if protocol = "OneWire".toList then some .OneWire
  else none

/-- A protocol, or what is printed if its name is unknown. -/
def createProtocol (protocol : Text) (portId : Nat) : Except (List Line) Protocol :=
  match protocolName protocol with
  | none => .error [.err ("Unknown protocol ".toList ++ protocol)]
  | some name => .ok ⟨name, portId⟩

/-- The loop over the names of the protocols. -/
def createPorts (s : HWSystem) (portsCount : Nat) : List Text → HWSystem × List Line
  | [] => (s, [])
  | name :: names =>
      match createProtocol (Java.trim name) portsCount with
      | .ok protocol => createPorts (s.addPort protocol) (portsCount + 1) names
      | .error printed =>
          let (s, lines) := createPorts s (portsCount + 1) names
          (s, printed ++ .err ("Invalid protocol type ".toList ++ name) :: lines)

/-- The names of the protocols in the first line. -/
def protocols (firstLine : Text) : List Text :=
  Java.split ',' (Java.trim (removeAll "Port Configuration:".toList 0 firstLine))

def limits (maxSensors maxDisplays maxWireless maxMotorDrivers : Int) : Category → Int
  | .sensor => maxSensors
  | .display => maxDisplays
  | .wireless => maxWireless
  | .motorDriver => maxMotorDrivers

/-- The system, if the file has five lines, and what is printed. -/
def loadConfiguration (configFile : Text) : Option HWSystem × List Line :=
  let lines := Java.lines configFile
  let parsed := ((lines.drop 1).take 4).map parseConfigLine
  let printed := parsed.flatMap Prod.snd
  match lines.head?, parsed.map Prod.fst with
  | some firstLine, [maxSensors, maxDisplays, maxWireless, maxMotorDrivers] =>
      let system := HWSystem.new (limits maxSensors maxDisplays maxWireless maxMotorDrivers)
      let (system, lines) := createPorts system 0 (protocols firstLine)
      (some system, printed ++ lines)
  | _, _ => (none, printed ++ [.err "Error loading configuration No line found".toList])

/-! ### The ports -/

/-- The ports of some names, the first of which has a number. -/
def portsFrom (k : Nat) : List Text → List Port
  | [] => []
  | name :: names =>
      ((protocolName (Java.trim name)).map fun p => ⟨⟨p, k⟩, none⟩).toList
        ++ portsFrom (k + 1) names

theorem createPorts_eq (s : HWSystem) (k : Nat) (names : List Text) :
  (createPorts s k names).1 = { s with ports := s.ports ++ portsFrom k names }
  := by
  induction names generalizing s k with
  | nil =>
      rw [portsFrom, List.append_nil]
      rfl
  | cons name names ih =>
      rw [createPorts, createProtocol, portsFrom]
      cases protocolName (Java.trim name) with
      | none => exact ih s (k + 1)
      | some p =>
          refine (ih _ _).trans ?_
          rw [HWSystem.addPort, List.append_assoc]
          rfl

theorem device_of_mem_portsFrom {k : Nat} {names : List Text} {port : Port}
    (h : port ∈ portsFrom k names) :
  port.device = none
  := by
  induction names generalizing k with
  | nil => cases h
  | cons name names ih =>
      rcases List.mem_append.mp h with h | h
      · obtain ⟨p, -, rfl⟩ := Option.map_eq_some_iff.mp (Option.mem_toList.mp h)
        rfl
      · exact ih h

/-- The system that a configuration describes. -/
def configured (max : Category → Int) (names : List Text) : HWSystem :=
  { HWSystem.new max with ports := portsFrom 0 names }

theorem sound_configured (max : Category → Int) (names : List Text) :
  (configured max names).Sound
  := HWSystem.sound_new max _ fun _ => device_of_mem_portsFrom

theorem connected_configured (max : Category → Int) (names : List Text) (i : Nat) :
  (configured max names).connected i = none
  := by
  rw [HWSystem.connected, configured]
  cases hi : (portsFrom 0 names)[i]? with
  | none => rfl
  | some port => exact device_of_mem_portsFrom (List.mem_of_getElem? hi)

/-- The system has the ports of the names in the first line. -/
theorem exists_of_loadConfiguration {configFile : Text} {s : HWSystem} {lines : List Line}
    (h : loadConfiguration configFile = (some s, lines)) :
  ∃ firstLine, (Java.lines configFile).head? = some firstLine
    ∧ s = configured s.max (protocols firstLine)
  := by
  revert h
  fun_cases loadConfiguration configFile with
  | case1 file parsed printed firstLine sensors displays wireless motorDrivers _ hfirst system s'
    lines'
      hports =>
      intro h
      obtain rfl : s' = s := by simpa using congrArg Prod.fst h
      have hs : s' = { system with ports := portsFrom 0 (protocols firstLine) } := by
        have hcreated := createPorts_eq system 0 (protocols firstLine)
        rw [hports] at hcreated
        exact hcreated
      refine ⟨firstLine, hfirst, ?_⟩
      rw [hs]
      rfl
  | case2 => rintro ⟨⟩

theorem parseConfigLine_eq {line value : Text} {n : Int} (name : Text)
    (hsplit : Java.split ':' line = [name, value])
    (hvalue : Java.parseInt (Java.trim value) = some n) :
  parseConfigLine line = (n, [])
  := by
  rw [parseConfigLine, hsplit]
  simp [hvalue]

/-- A file of five lines. -/
theorem loadConfiguration_eq {configFile firstLine sensors displays wireless motorDrivers : Text}
    {m₁ m₂ m₃ m₄ : Int}
    (hlines : Java.lines configFile = [firstLine, sensors, displays, wireless, motorDrivers])
    (hsensors : parseConfigLine sensors = (m₁, []))
    (hdisplays : parseConfigLine displays = (m₂, []))
    (hwireless : parseConfigLine wireless = (m₃, []))
    (hmotorDrivers : parseConfigLine motorDrivers = (m₄, [])) :
  ∃ lines, loadConfiguration configFile
    = (some (configured (limits m₁ m₂ m₃ m₄) (protocols firstLine)), lines)
  := by
  refine ⟨(createPorts (HWSystem.new (limits m₁ m₂ m₃ m₄)) 0 (protocols firstLine)).2, ?_⟩
  have hports := createPorts_eq (HWSystem.new (limits m₁ m₂ m₃ m₄)) 0 (protocols firstLine)
  rw [loadConfiguration, hlines]
  simp only [List.drop_succ_cons, List.drop_zero, List.take_succ_cons, List.take_zero,
    List.map_cons,
    List.map_nil, hsensors, hdisplays, hwireless, hmotorDrivers, List.head?_cons]
  rw [hports]
  rfl

/-- A file with a first line, and a limit of one device of every category. -/
def oneEach (firstLine : String) : Text :=
  (firstLine ++ "\n# of sensors:1\n# of displays:1\n# of wireless adapters:1\n"
    ++ "# of motor drivers:1\n").toList

def oneEachLines (firstLine : String) : List Text :=
  [firstLine.toList, "# of sensors:1".toList, "# of displays:1".toList,
    "# of wireless adapters:1".toList, "# of motor drivers:1".toList]

theorem loadConfiguration_oneEach {firstLine : String}
    (hlines : Java.lines (oneEach firstLine) = oneEachLines firstLine) :
  ∃ lines, loadConfiguration (oneEach firstLine)
    = (some (configured (limits 1 1 1 1) (protocols firstLine.toList)), lines)
  := by
  have hlimit : Java.parseInt (Java.trim "1".toList) = some 1 := by decide
  refine loadConfiguration_eq hlines ?_ ?_ ?_ ?_
  · exact parseConfigLine_eq "# of sensors".toList (by decide) hlimit
  · exact parseConfigLine_eq "# of displays".toList (by decide) hlimit
  · exact parseConfigLine_eq "# of wireless adapters".toList (by decide) hlimit
  · exact parseConfigLine_eq "# of motor drivers".toList (by decide) hlimit

end Hardware
