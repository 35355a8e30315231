/-!
# Message types and status codes (`cia_def.h`)

The strings of the protocol, as the bytes of a `std::string`. Call success and
login success share the text `"99"`, call failure and login failure the text
`"98"`, as in the header.
-/

namespace CiaServer

/-- The content of a `std::string` or of a character buffer. -/
abbrev Bytes := List UInt8

/-- `"000101"` -/
def ciaLoginRequest : Bytes := [0x30, 0x30, 0x30, 0x31, 0x30, 0x31]
/-- `"000301"` -/
def ciaLoginResponse : Bytes := [0x30, 0x30, 0x30, 0x33, 0x30, 0x31]
/-- `"99"` -/
def ciaLoginSuccess : Bytes := [0x39, 0x39]
/-- `"000302"` -/
def ciaHeartRequest : Bytes := [0x30, 0x30, 0x30, 0x33, 0x30, 0x32]
/-- `"000102"` -/
def ciaHeartResponse : Bytes := [0x30, 0x30, 0x30, 0x31, 0x30, 0x32]
/-- `"010103"` -/
def ciaCallRequest : Bytes := [0x30, 0x31, 0x30, 0x31, 0x30, 0x33]
/-- `"010303"` -/
def ciaCallResponse : Bytes := [0x30, 0x31, 0x30, 0x33, 0x30, 0x33]
/-- `"99"` -/
def ciaCallSuccess : Bytes := [0x39, 0x39]
/-- `"98"` -/
def ciaCallFail : Bytes := [0x39, 0x38]
/-- `"01"` -/
def ciaCallTimeout : Bytes := [0x30, 0x31]

end CiaServer
