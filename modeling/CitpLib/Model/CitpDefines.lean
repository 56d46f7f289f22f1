import Mathlib.Data.Nat.Notation

/-!
# CITP data structures and constants

The cookies that name the layers and messages of the protocol, and for each
packed structure the byte offsets of its fields and its size. A cookie is the
number that a little-endian host reads from its four characters. Strings,
channel levels and identifier lists follow their structure without a field of
their own.

## Main definitions

* `cookieCitp` and its siblings — content type cookies
* `CitpHeader` and its siblings — field offsets and structure sizes
-/

namespace CitpLib

/-! ## Content type cookies -/

/-- "CITP", which every message begins with. -/
def cookieCitp : ℕ := 0x50544943

/-- "PINF", the peer information layer. -/
def cookiePinf : ℕ := 0x464e4950

/-- "PLoc", a peer location message. -/
def cookiePinfPLoc : ℕ := 0x636f4c50

/-- "SDMX", the layer for DMX data. -/
def cookieSdmx : ℕ := 0x584d4453

/-- "UNam", a universe name message. -/
def cookieSdmxUNam : ℕ := 0x6d614e55

/-- "ChBk", a channel block message. -/
def cookieSdmxChBk : ℕ := 0x6b426843

/-- "SXSr", a set external source message. -/
def cookieSdmxSXSr : ℕ := 0x72535853

/-- "FPTC", the fixture patch layer. -/
def cookieFptc : ℕ := 0x43545046

/-- "Ptch", a fixture patch message. -/
def cookieFptcPtch : ℕ := 0x68637450

/-- "UPtc", a fixture unpatch message. -/
def cookieFptcUPtc : ℕ := 0x63745055

/-- "SPtc", a fixture send patch message. -/
def cookieFptcSPtc : ℕ := 0x63745053

/-- "FSEL", the fixture selection layer. -/
def cookieFsel : ℕ := 0x4c455346

/-- "Sele", a fixture select message. -/
def cookieFselSele : ℕ := 0x656c6553

/-- "DeSe", a fixture deselect message. -/
def cookieFselDeSe : ℕ := 0x65536544

/-! ## Packed structures -/

namespace CitpHeader
@[simp] def cookie : ℕ := 0
@[simp] def versionMajor : ℕ := 4
@[simp] def versionMinor : ℕ := 5
@[simp] def reserved : ℕ := 6
@[simp] def messageSize : ℕ := 8
@[simp] def messagePartCount : ℕ := 12
@[simp] def messagePart : ℕ := 14
@[simp] def contentType : ℕ := 16
@[simp] def sizeof : ℕ := 20
end CitpHeader

namespace CitpPinfHeader
@[simp] def contentType : ℕ := CitpHeader.sizeof
@[simp] def sizeof : ℕ := CitpHeader.sizeof + 4
end CitpPinfHeader

namespace CitpPinfPLoc
@[simp] def listeningTcpPort : ℕ := CitpPinfHeader.sizeof
@[simp] def sizeof : ℕ := CitpPinfHeader.sizeof + 2
end CitpPinfPLoc

namespace CitpSdmxHeader
@[simp] def contentType : ℕ := CitpHeader.sizeof
@[simp] def sizeof : ℕ := CitpHeader.sizeof + 4
end CitpSdmxHeader

namespace CitpSdmxUNam
@[simp] def universeIndex : ℕ := CitpSdmxHeader.sizeof
@[simp] def sizeof : ℕ := CitpSdmxHeader.sizeof + 1
end CitpSdmxUNam

namespace CitpSdmxChBk
@[simp] def blind : ℕ := CitpSdmxHeader.sizeof
@[simp] def universeIndex : ℕ := CitpSdmxHeader.sizeof + 1
@[simp] def firstChannel : ℕ := CitpSdmxHeader.sizeof + 2
@[simp] def channelCount : ℕ := CitpSdmxHeader.sizeof + 4
@[simp] def sizeof : ℕ := CitpSdmxHeader.sizeof + 6
end CitpSdmxChBk

namespace CitpSdmxSXSr
@[simp] def sizeof : ℕ := CitpSdmxHeader.sizeof
end CitpSdmxSXSr

namespace CitpFptcHeader
@[simp] def contentType : ℕ := CitpHeader.sizeof
@[simp] def contentHint : ℕ := CitpHeader.sizeof + 4
@[simp] def sizeof : ℕ := CitpHeader.sizeof + 8
end CitpFptcHeader

/-! `CITP_FPTC_Ptch` has one reserved byte between universe and channel. -/

namespace CitpFptcPtch
@[simp] def fixtureIdentifier : ℕ := CitpFptcHeader.sizeof
@[simp] def patchUniverse : ℕ := CitpFptcHeader.sizeof + 2
@[simp] def channel : ℕ := CitpFptcHeader.sizeof + 4
@[simp] def channelCount : ℕ := CitpFptcHeader.sizeof + 6
@[simp] def sizeof : ℕ := CitpFptcHeader.sizeof + 8
end CitpFptcPtch

namespace CitpFptcUPtc
@[simp] def fixtureCount : ℕ := CitpFptcHeader.sizeof
@[simp] def sizeof : ℕ := CitpFptcHeader.sizeof + 2
end CitpFptcUPtc

namespace CitpFptcSPtc
@[simp] def fixtureCount : ℕ := CitpFptcHeader.sizeof
@[simp] def sizeof : ℕ := CitpFptcHeader.sizeof + 2
end CitpFptcSPtc

namespace CitpFselHeader
@[simp] def contentType : ℕ := CitpHeader.sizeof
@[simp] def sizeof : ℕ := CitpHeader.sizeof + 4
end CitpFselHeader

/-! `CITP_FSEL_Sele` has one reserved byte between flag and count. -/

namespace CitpFselSele
@[simp] def complete : ℕ := CitpFselHeader.sizeof
@[simp] def fixtureCount : ℕ := CitpFselHeader.sizeof + 2
@[simp] def sizeof : ℕ := CitpFselHeader.sizeof + 4
end CitpFselSele

namespace CitpFselDeSe
@[simp] def fixtureCount : ℕ := CitpFselHeader.sizeof
@[simp] def sizeof : ℕ := CitpFselHeader.sizeof + 2
end CitpFselDeSe

end CitpLib
