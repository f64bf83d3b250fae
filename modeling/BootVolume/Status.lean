/-!
# Firmware status values

A status is a 64-bit word whose highest bit marks an error. The named values
are those of the UEFI specification that this library gives or meets.
-/

namespace BootVolume

/-- A status as the firmware passes it. -/
abbrev Status := UInt64

namespace Status

/-- The bit that marks an error. -/
def errorBit : Status := 0x8000000000000000

/-- The error status with the given code. -/
def error (code : UInt64) : Status := errorBit ||| code

/-- Success. -/
def success : Status := 0

/-- An image could not be loaded. -/
def loadError : Status := error 1

/-- A parameter is out of its range. -/
def invalidParameter : Status := error 2

/-- The operation or protocol is not there. -/
def unsupported : Status := error 3

/-- A buffer length does not suit the request. -/
def badBufferSize : Status := error 4

/-- A buffer is shorter than the answer. -/
def bufferTooSmall : Status := error 5

/-- No data are ready. -/
def notReady : Status := error 6

/-- The device failed. -/
def deviceError : Status := error 7

/-- The device cannot be written. -/
def writeProtected : Status := error 8

/-- Memory or another resource has run out. -/
def outOfResources : Status := error 9

/-- There is no medium in the device. -/
def noMedia : Status := error 12

/-- The medium has changed since it was named. -/
def mediaChanged : Status := error 13

/-- The thing asked for does not exist. -/
def notFound : Status := error 14

/-- Whether a status reports an error; warnings and success do not. -/
def isError (status : Status) : Bool := status &&& errorBit != 0

end Status

end BootVolume
