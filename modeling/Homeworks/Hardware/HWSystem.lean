import Homeworks.Java.Text

/-!
# The hardware system

`HWSystem` with its ports and devices.  A device is named by the number of those created before it;
ports and lists refer to the same device if they have the same name.  An operation prints lines, or
ends with an exception that has a message.
-/

namespace Hardware

open Java (Text)

/-- A line that is printed. -/
inductive Line where
  | out (s : Text)
  | err (s : Text)

/-! ### Protocols and devices -/

inductive ProtocolName where
  | UART
  | SPI
  | I2C
  | OneWire
  deriving DecidableEq

def ProtocolName.getProtocolName : ProtocolName → Text
  | UART => "UART".toList
  | SPI => "SPI".toList
  | I2C => "I2C".toList
  | OneWire => "OneWire".toList

structure Protocol where
  name : ProtocolName
  portId : Int
  deriving DecidableEq

inductive Category where
  | sensor
  | display
  | wireless
  | motorDriver
  deriving DecidableEq

/-- The argument of `listDevices`. -/
def Category.ofText (deviceType : Text) : Option Category :=
  if deviceType = "Sensor".toList then some .sensor
  else if deviceType = "Display".toList then some .display
  else if deviceType = "WirelessIO".toList then some .wireless
  else if deviceType = "MotorDriver".toList then some .motorDriver
  else none

/-- The class of a device. -/
inductive DeviceType where
  | DHT11
  | BME280
  | MPU6050
  | GY951
  | LCD
  | OLED
  | Bluetooth
  | Wifi
  | PCA9685
  | SparkFunMD
  deriving DecidableEq

namespace DeviceType

def getName : DeviceType → Text
  | DHT11 => "DHT11".toList
  | BME280 => "BME280".toList
  | MPU6050 => "MPU6050".toList
  | GY951 => "GY951".toList
  | LCD => "LCD".toList
  | OLED => "OLED".toList
  | Bluetooth => "Bluetooth".toList
  | Wifi => "Wifi".toList
  | PCA9685 => "PCA9685".toList
  | SparkFunMD => "SparkFunMD".toList

def all : List DeviceType :=
  [DHT11, BME280, MPU6050, GY951, LCD, OLED, Bluetooth, Wifi, PCA9685, SparkFunMD]

/-- The device type with a name; no other name is valid. -/
def ofName (name : Text) : Option DeviceType := all.find? fun t => t.getName = name

def category : DeviceType → Category
  | DHT11 | BME280 | MPU6050 | GY951 => .sensor
  | LCD | OLED => .display
  | Bluetooth | Wifi => .wireless
  | PCA9685 | SparkFunMD => .motorDriver

/-- The protocols that the constructor accepts. -/
def accepts : DeviceType → List ProtocolName
  | DHT11 => [.OneWire]
  | BME280 => [.I2C, .SPI]
  | MPU6050 => [.I2C]
  | GY951 => [.UART, .SPI]
  | LCD => [.I2C]
  | OLED => [.SPI]
  | Bluetooth => [.UART]
  | Wifi => [.SPI, .UART]
  | PCA9685 => [.I2C]
  | SparkFunMD => [.SPI]

/-- The message of the constructor for another protocol. -/
def requirement : DeviceType → Text
  | DHT11 => "DHT11 requires OneWire protocol".toList
  | BME280 => "BME280 requires I2C or SPI protocols".toList
  | MPU6050 => "MPU6050 requires I2C protocol".toList
  | GY951 => "GY951 requires UART or SPI protocols".toList
  | LCD => "LCD requires I2C protocol".toList
  | OLED => "OLED requires SPI protocol".toList
  | Bluetooth => "Bluetooth requires UART protocol".toList
  | Wifi => "Wifi requires SPI or UART protocols".toList
  | PCA9685 => "PCA9685 requires I2C protocol".toList
  | SparkFunMD => "SparkFunMD requires SPI protocol".toList

def getDevType : DeviceType → Text
  | DHT11 | BME280 => "TempSensor Sensor".toList
  | MPU6050 | GY951 => "IMUSensor Sensor".toList
  | LCD | OLED => "Display".toList
  | Bluetooth | Wifi => "WirelessIO".toList
  | PCA9685 | SparkFunMD => "MotorDriver".toList

/-- What a sensor reads. -/
def data2String : DeviceType → Text
  | DHT11 | BME280 => "Temperature: 24.00C.".toList
  | _ => "Accel: 1.00, Rot: 0.50".toList

end DeviceType

inductive State where
  | ON
  | OFF
  deriving DecidableEq

def State.toString : State → Text
  | ON => "ON".toList
  | OFF => "OFF".toList

structure Device where
  /-- which of the devices created so far -/
  ref : Nat
  type : DeviceType
  protocol : Protocol
  devId : Int
  deriving DecidableEq

structure Port where
  protocol : Protocol
  device : Option Device

/-! ### The system -/

structure HWSystem where
  ports : List Port
  /-- the devices of a category by their ids; `null` is `none` -/
  devices : Category → Nat → Option Device
  max : Category → Int
  state : Nat → State
  created : Nat

namespace HWSystem

/-- The constructor. -/
def new (max : Category → Int) : HWSystem := ⟨[], fun _ _ => none, max, fun _ => .OFF, 0⟩

def addPort (s : HWSystem) (protocol : Protocol) : HWSystem :=
  { s with ports := s.ports ++ [⟨protocol, none⟩] }

/-- The port with an id, if the id is valid. -/
def getPort (s : HWSystem) (portId : Int) : Option Port :=
  if 0 ≤ portId then s.ports[portId.toNat]? else none

def setDevice (s : HWSystem) (portId : Int) (device : Option Device) : HWSystem :=
  { s with ports := s.ports.modify portId.toNat fun port => { port with device := device } }

/-- The message of an exception for an index outside of a list. -/
def outOfBounds (s : HWSystem) (c : Category) (index : Int) : Text :=
  "Index ".toList ++ CString.decimal index ++ " out of bounds for length ".toList
    ++ CString.decimal (s.max c).toNat

/-- `get` of the list of a category. -/
def get (s : HWSystem) (c : Category) (index : Int) : Except Text (Option Device) :=
  if 0 ≤ index ∧ index < s.max c then
    .ok (s.devices c index.toNat)
  else
    .error (s.outOfBounds c index)

/-- `set` of the list of a category. -/
def set (s : HWSystem) (c : Category) (index : Int) (device : Option Device) :
    Except Text HWSystem :=
  if 0 ≤ index ∧ index < s.max c then
    .ok { s with devices :=
      Function.update s.devices c (Function.update (s.devices c) index.toNat device) }
  else
    .error (s.outOfBounds c index)

def isValidDeviceId (s : HWSystem) (t : DeviceType) (devId : Int) : Bool :=
  devId ≥ 0 && devId < s.max t.category

/-- What is printed if the constructor of a device throws an exception. -/
def creationError (t : DeviceType) : Text :=
  (if t.category = .display then "Error creating display: " else "Error creating device: ").toList
    ++ t.requirement

/-- Whether a device was added to a port, the system with it, and what is printed. -/
def addDev (s : HWSystem) (devType : Text) (portId devId : Int) :
    Except Text (Bool × HWSystem × List Line) :=
  match DeviceType.ofName devType with
  | none => .ok (false, s, [.err "Invalid device name".toList])
  | some t =>
      match s.getPort portId with
      | none => .ok (false, s, [.err "Invalid port ID".toList])
      | some port =>
          if port.device.isSome then
            .ok (false, s, [.err "Port is occupied".toList])
          else if !s.isValidDeviceId t devId then
            .ok (false, s, [.err ("Invalid device ID for ".toList ++ devType)])
          else do
            let existing ← s.get t.category devId
            if existing.isSome then
              .ok (false, s, [.err "Device ID already exists".toList])
            else if port.protocol.name ∉ t.accepts then
              .ok (false, s, [.err (creationError t)])
            else
              let device : Device := ⟨s.created, t, port.protocol, devId⟩
              let s' := { s with
                state := Function.update s.state s.created .OFF
                created := s.created + 1 }
              let s' ← (s'.setDevice portId (some device)).set t.category devId (some device)
              .ok (true, s', [.out "Device added.".toList])

/-- Whether the device of a port was removed. -/
def rmDev (s : HWSystem) (portId : Int) : Except Text (Bool × HWSystem × List Line) :=
  match s.getPort portId with
  | none => .ok (false, s, [.err ("Invalid port ID: ".toList ++ CString.decimal portId)])
  | some port =>
      match port.device with
      | none =>
          .ok (false, s, [.err ("No device connected to port ".toList ++ CString.decimal portId)])
      | some device =>
          if s.state device.ref = .ON then
            .ok (false, s, [.err "Cannot remove device while it's ON".toList])
          else do
            let s' ← s.set device.type.category device.devId none
            .ok (true, s'.setDevice portId none, [.out "Device removed.".toList])

/-- `turnOn` of a device. -/
def turnOnDevice (s : HWSystem) (device : Device) : Except Text (HWSystem × List Line) :=
  let name := device.type.getName
  if s.state device.ref = .ON then
    if device.type = .OLED then
      .ok (s, [.err (name ++ " is already on".toList)])
    else
      .error (name ++ " is already on".toList)
  else
    .ok ({ s with state := Function.update s.state device.ref .ON },
      [.out (name ++ ": Turning ON.".toList)])

/-- `turnOff` of a device. -/
def turnOffDevice (s : HWSystem) (device : Device) : Except Text (HWSystem × List Line) :=
  let name := device.type.getName
  if s.state device.ref = .OFF then
    if device.type = .OLED then
      .ok (s, [.err (name ++ " is already off".toList)])
    else
      .error (name ++ " is already off".toList)
  else
    .ok ({ s with state := Function.update s.state device.ref .OFF },
      [.out (name ++ ": Turning OFF.".toList)])

def turnON (s : HWSystem) (portId : Int) : Except Text (HWSystem × List Line) :=
  match s.getPort portId with
  | none => .ok (s, [.err "Invalid port ID".toList])
  | some port =>
      match port.device with
      | none => .ok (s, [.err ("No device connected to port ".toList ++ CString.decimal portId)])
      | some device => s.turnOnDevice device

def turnOFF (s : HWSystem) (portId : Int) : Except Text (HWSystem × List Line) :=
  match (s.getPort portId).bind Port.device with
  | none => .ok (s, [])
  | some device => s.turnOffDevice device

/-! ### Devices by their ids -/

/-- The device of a category with an id, if there is one. -/
def getById (s : HWSystem) (c : Category) (devId : Int) : Option Device :=
  if 0 ≤ devId ∧ devId < s.max c then s.devices c devId.toNat else none

def readSensor (s : HWSystem) (devId : Int) : Except Text (List Line) :=
  match s.getById .sensor devId with
  | none => .ok [.err ("There is no sensor with devId ".toList ++ CString.decimal devId)]
  | some sensor =>
      if s.state sensor.ref = .ON then
        .ok [.out (sensor.type.getName ++ " ".toList ++ sensor.type.getDevType ++ ": ".toList
          ++ sensor.type.data2String)]
      else
        .ok [.err "Sensor is OFF".toList]

def printDisplay (s : HWSystem) (devId : Int) (data : Text) : Except Text (List Line) :=
  match s.getById .display devId with
  | none => .ok [.err ("There is no display with devId ".toList ++ CString.decimal devId)]
  | some display =>
      if s.state display.ref = .ON then
        .ok [.out (display.type.getName ++ ": Printing \"".toList ++ data ++ "\".".toList)]
      else
        .error "Display is OFF".toList

def setMotorSpeed (s : HWSystem) (devId speed : Int) : Except Text (List Line) :=
  match s.getById .motorDriver devId with
  | none => .ok [.err ("There is no motor driver with devId ".toList ++ CString.decimal devId)]
  | some motordriver =>
      if s.state motordriver.ref = .ON then
        .ok [.out (motordriver.type.getName ++ ": Setting speed to ".toList ++ CString.decimal speed
          ++ ".".toList)]
      else
        .error "MotorDriver is OFF".toList

def writeWireless (s : HWSystem) (devId : Int) (data : Text) : Except Text (List Line) :=
  match s.getById .wireless devId with
  | none => .ok [.err ("There is no wireless device with devId ".toList ++ CString.decimal devId)]
  | some wireless =>
      if s.state wireless.ref = .ON then
        .ok [.out (wireless.type.getName ++ ": Sending \"".toList ++ data ++ "\".".toList)]
      else
        .error "WirelessIO is OFF".toList

def readWireless (s : HWSystem) (devId : Int) : Except Text (List Line) :=
  match s.getById .wireless devId with
  | none => .ok [.err ("There is no wireless device with devId ".toList ++ CString.decimal devId)]
  | some wireless =>
      if s.state wireless.ref = .ON then
        .ok [.out (wireless.type.getName ++ ": Received \"Some Data\".".toList)]
      else
        .error "WirelessIO is OFF".toList

/-! ### Lists -/

/-- A line of `listPorts`. -/
def portInfo (s : HWSystem) (i : Nat) (port : Port) : Text :=
  CString.decimal i ++ " ".toList ++ port.protocol.name.getProtocolName
    ++ match port.device with
      | none => " empty".toList
      | some dev =>
          " occupied ".toList ++ dev.type.getName ++ " ".toList ++ dev.type.getDevType ++ " ".toList
            ++ CString.decimal dev.devId ++ " ".toList ++ (s.state dev.ref).toString

def listPorts (s : HWSystem) : List Line :=
  .out "list of ports:".toList :: s.ports.mapIdx fun i port => .out (s.portInfo i port)

def printDeviceInfo (device : Device) : Text :=
  device.type.getName ++ " ".toList ++ CString.decimal device.devId ++ " ".toList
    ++ CString.decimal device.protocol.portId ++ " ".toList
    ++ device.protocol.name.getProtocolName

/-- The devices of a category, in the order of their ids. -/
def listed (s : HWSystem) (c : Category) : List Device :=
  (List.range (s.max c).toNat).filterMap (s.devices c)

def listDevices (s : HWSystem) (deviceType : Text) : List Line :=
  .out ("list of ".toList ++ deviceType ++ "s:".toList)
    :: match Category.ofText deviceType with
      | none => [.out "Invalid device type".toList]
      | some c => (s.listed c).map fun device => .out (printDeviceInfo device)

end HWSystem

end Hardware
