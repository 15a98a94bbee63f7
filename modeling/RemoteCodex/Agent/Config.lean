import RemoteCodex.Lib.Checks
import RemoteCodex.Agent.MediaLoop
import RemoteCodex.Core.TailnetAddress

namespace RemoteCodex
set_option autoImplicit true
open Checks

namespace Media

/-- `MediaConfig` with all its fields -/
structure MediaConfigFile extends MediaConfig where
  minPort : UInt16
  maxPort : UInt16
  helperPath : Option String
  profile : VideoProfile

/-- The default of `VideoProfile` -/
def defaultProfile : VideoProfile := ⟨1280, 720, 15, 2500⟩

/-- The defaults of the fields that `MediaConfig` has beside those of the settings. -/
def MediaConfig.withDefaults (c : MediaConfig) : MediaConfigFile :=
  { c with minPort := 50000, maxPort := 50010, helperPath := none, profile := defaultProfile }

/-- `MediaConfig::validate`; what an absolute path is depends on the system. -/
def MediaConfigFile.validate (isAbsolute : String → Bool) (c : MediaConfigFile) :
    Except String Unit := do
  c.profile.validate
  refuse (c.minPort < 1024 ∨ c.maxPort < c.minPort ∨ 31 < c.maxPort - c.minPort)
    "Media UDP range must contain at most 32 ports above 1023"
  refuse (16 < c.allowedPeerIps.length ∨ c.allowedPeerIps.any fun x => !tailnetIp x.toList)
    "Media peers must be explicitly listed numeric Tailscale IPv4 addresses"
  refuse (c.enabled ∧
      ((c.tailnetIp.elim true fun x => !tailnetIp x.toList) ∨ c.allowedPeerIps = []))
    "Enabled media needs company tailnet_ip and allowed_peer_ips"
  refuse (c.helperPath.any fun p => !isAbsolute p) "Explicit helper_path must be absolute"

end Media

/-- What is read of a `SocketAddr`: its text, its port, and whether it is a loopback address. -/
structure SocketAddr where
  text : String
  port : UInt16
  loopback : Bool

/-- What is read of a parsed URL. -/
structure Url where
  scheme : String
  username : String
  password : Option String
  host : Option String
  port : Option UInt16
  path : String
  query : Option String
  fragment : Option String
  deriving DecidableEq

/-- The directories are left out: nothing here reads them. -/
structure Config where
  bind : SocketAddr
  publicOrigin : Option String
  localUiOrigins : List String
  maxSessions : UInt64
  ringBytes : UInt64
  allowGuiExperiments : Bool
  media : Media.MediaConfigFile

def LOCAL_UI_ORIGINS : List String :=
  ["http://tauri.localhost", "tauri://localhost", "http://localhost:1420", "http://127.0.0.1:1420"]

/-- `str::trim_end_matches` of one character -/
def trimEndMatchesChar (c : Char) (s : String) : String :=
  .ofList (s.toList.reverse.dropWhile (· == c)).reverse

namespace Config

def checkPublicOrigin (parse : String → Except String Url) (s : String) : Except String Unit := do
  let u ← parse s
  refuse (u.scheme ≠ "https" ∨ u.host = none ∨ u.username ≠ "" ∨ u.password ≠ none ∨
      u.path ≠ "/" ∨ u.query ≠ none ∨ u.fragment ≠ none)
    "public_origin must be an exact HTTPS origin"

/-- `Url::parse` and `Path::is_absolute` are given. -/
def validate (parse : String → Except String Url) (isAbsolute : String → Bool) (c : Config) :
    Except String Unit := do
  refuse (¬ c.bind.loopback)
    "Agent must bind to loopback. Configure Tailscale Serve for remote access."
  refuse (c.bind.port = 0) "Management port cannot be zero"
  refuse (c.maxSessions = 0 ∨ 8 < c.maxSessions)
    "max_sessions must be 1..8 for the initial resource budget"
  refuse (c.ringBytes < 32768 ∨ 8 * 1024 * 1024 < c.ringBytes)
    "ring_bytes outside supported bounds"
  c.publicOrigin.elim (.ok ()) (checkPublicOrigin parse)
  refuse (c.localUiOrigins.any fun origin => origin ∉ LOCAL_UI_ORIGINS)
    "Only the fixed local UI origins are permitted"
  refuse c.allowGuiExperiments
    ("Legacy allow_gui_experiments flag is not accepted. Use explicit [media] configuration and " ++
      "local source approval.")
  c.media.validate isAbsolute

def localOrigin (c : Config) : String := "http://" ++ c.bind.text

def origins (c : Config) : List String :=
  c.localUiOrigins ++ [c.localOrigin] ++ (c.publicOrigin.map (trimEndMatchesChar '/')).toList

def originAllowed (c : Config) (s : String) : Bool := c.origins.any (· == s)

def hostAllowed (parse : String → Except String Url) (c : Config) (s : String) : Bool :=
  s == c.bind.text ||
    (c.publicOrigin.bind fun p => (parse p).toOption).any fun u =>
      let h := u.host.getD ""
      s == u.port.elim h fun p => h ++ ":" ++ toString p

end Config
end RemoteCodex
