import RemoteCodex.Lib.Table
import RemoteCodex.Core.Protocol

namespace RemoteCodex
set_option autoImplicit true

structure Device where
  clientId : Uuid
  publicKey : List UInt8
  label : String
  scopes : List Scope
  revoked : Bool
  deriving DecidableEq

/-- The durable tables that authentication reads and writes. -/
structure Store where
  devices : AList fun _ : Uuid => Device
  remoteBlocked : Bool

namespace Store

/-- A device that is already stored keeps its key and its label. -/
def saveDevice (s : Store) (d : Device) : Store :=
  { s with devices := s.devices.insert d.clientId (match s.devices.lookup d.clientId with
      | some stored => { stored with scopes := d.scopes, revoked := d.revoked }
      | none => d) }

def setRemoteBlocked (s : Store) (value : Bool) : Store := { s with remoteBlocked := value }

end Store
end RemoteCodex
