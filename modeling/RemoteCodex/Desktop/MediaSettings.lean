import RemoteCodex.Agent.Config

namespace RemoteCodex
set_option autoImplicit true
open Media Checks
namespace Desktop

structure MediaSettings where
  enabled : Bool
  allowControl : Bool
  tailnetIp : Option String
  allowedPeerIps : List String
  deriving DecidableEq

def validateMediaSettings (settings : MediaSettings) : Except String Unit := do
  refuse (16 < settings.allowedPeerIps.length ∨
      settings.allowedPeerIps.any fun ip => !RemoteCodex.tailnetIp ip.toList)
    "Allowed peers must be numeric 100.64.0.0/10 Tailscale IPv4 addresses"
  refuse (settings.tailnetIp.any fun ip => !RemoteCodex.tailnetIp ip.toList)
    "The host Tailscale IPv4 address is invalid"
  refuse (settings.enabled ∧ (settings.tailnetIp = none ∨ settings.allowedPeerIps = []))
    "Enabled media needs a host Tailscale IP and at least one allowed peer"
  refuse (¬ settings.enabled ∧ settings.allowControl)
    "GUI control can only be enabled with media"

/-- The configuration made of the settings. -/
def MediaSettings.config (settings : MediaSettings) : MediaConfigFile :=
  MediaConfig.withDefaults
    { enabled := settings.enabled
      allowControl := settings.allowControl
      tailnetIp := settings.tailnetIp
      allowedPeerIps := settings.allowedPeerIps }

/-- What both validators ask for. -/
structure Sound (settings : MediaSettings) : Prop where
  count : settings.allowedPeerIps.length ≤ 16
  peers : ∀ ip ∈ settings.allowedPeerIps, RemoteCodex.tailnetIp ip.toList = true
  complete : settings.enabled = true → settings.allowedPeerIps ≠ [] ∧
    ∃ ip, settings.tailnetIp = some ip ∧ RemoteCodex.tailnetIp ip.toList = true

/-- What the desktop asks for beside it: an address is checked also while media is off, and
control goes with media only. -/
structure Strict (settings : MediaSettings) : Prop where
  address : ∀ ip ∈ settings.tailnetIp, RemoteCodex.tailnetIp ip.toList = true
  control : settings.allowControl = true → settings.enabled = true

theorem peers_iff {ips : List String} :
    ¬ (16 < ips.length ∨ (ips.any fun ip => !RemoteCodex.tailnetIp ip.toList) = true) ↔
      ips.length ≤ 16 ∧ ∀ ip ∈ ips, RemoteCodex.tailnetIp ip.toList = true := by
  rw [not_or, not_lt, List.any_eq_true, not_exists]
  simp only [not_and, Bool.not_eq_true', Bool.not_eq_false]

theorem config_valid (isAbsolute : String → Bool) (s : MediaSettings) :
    s.config.validate isAbsolute = .ok () ↔ Sound s := by
  have hprofile : s.config.profile.validate = .ok () :=
    show defaultProfile.validate = .ok () by decide
  have hports : ¬ (s.config.minPort < 1024 ∨ s.config.maxPort < s.config.minPort ∨
      31 < s.config.maxPort - s.config.minPort) :=
    show ¬ ((50000 : UInt16) < 1024 ∨ (50010 : UInt16) < 50000 ∨ 31 < (50010 : UInt16) - 50000) by
      decide
  have hhelper : ¬ (s.config.helperPath.any fun p => !isAbsolute p) = true := Bool.false_ne_true
  unfold MediaConfigFile.validate
  rw [then_ok, then_ok, then_ok, then_ok, refuse_ok, refuse_ok, refuse_ok, refuse_ok]
  constructor
  · rintro ⟨-, -, hpeers, hcomplete, -⟩
    obtain ⟨hcount, hall⟩ := peers_iff.1 hpeers
    refine ⟨hcount, hall, fun henabled => ?_⟩
    simp only [not_and, not_or] at hcomplete
    obtain ⟨hip, hne⟩ := hcomplete henabled
    refine ⟨hne, ?_⟩
    change ¬ (s.tailnetIp.elim true fun x => !RemoteCodex.tailnetIp x.toList) = true at hip
    cases haddr : s.tailnetIp with
    | none =>
      rw [haddr] at hip
      exact absurd rfl hip
    | some ip =>
      rw [haddr, Option.elim_some, Bool.not_eq_true', Bool.not_eq_false] at hip
      exact ⟨ip, rfl, hip⟩
  · rintro ⟨hcount, hall, hcomplete⟩
    refine ⟨hprofile, hports, peers_iff.2 ⟨hcount, hall⟩, ?_, hhelper⟩
    rintro ⟨henabled, hbad⟩
    obtain ⟨hne, ip, haddr, hip⟩ := hcomplete henabled
    rcases hbad with hbad | hbad
    · have haddr' : s.config.tailnetIp = some ip := haddr
      rw [haddr', Option.elim_some, hip] at hbad
      cases hbad
    · exact hne hbad

theorem settings_valid (s : MediaSettings) :
    validateMediaSettings s = .ok () ↔ Sound s ∧ Strict s := by
  unfold validateMediaSettings
  rw [then_ok, then_ok, then_ok, refuse_ok, refuse_ok, refuse_ok, refuse_ok]
  constructor
  · rintro ⟨hpeers, haddr, hcomplete, hcontrol⟩
    obtain ⟨hcount, hall⟩ := peers_iff.1 hpeers
    have haddress : ∀ ip ∈ s.tailnetIp, RemoteCodex.tailnetIp ip.toList = true := by
      intro ip hip
      rw [Option.mem_def.1 hip, Option.any_some, Bool.not_eq_true', Bool.not_eq_false] at haddr
      exact haddr
    refine ⟨⟨hcount, hall, fun henabled => ?_⟩, haddress, fun hc => ?_⟩
    · simp only [not_and, not_or] at hcomplete
      obtain ⟨hsome, hne⟩ := hcomplete henabled
      obtain ⟨ip, hip⟩ := Option.ne_none_iff_exists'.1 hsome
      exact ⟨hne, ip, hip, haddress ip hip⟩
    · by_contra hoff
      exact hcontrol ⟨hoff, hc⟩
  · rintro ⟨⟨hcount, hall, hcomplete⟩, haddress, hcontrol⟩
    refine ⟨peers_iff.2 ⟨hcount, hall⟩, ?_, ?_, ?_⟩
    · cases haddr : s.tailnetIp with
      | none => exact Bool.false_ne_true
      | some ip =>
        rw [Option.any_some, haddress ip haddr]
        exact Bool.false_ne_true
    · rintro ⟨henabled, hbad⟩
      obtain ⟨hne, ip, haddr, -⟩ := hcomplete henabled
      rcases hbad with hbad | hbad
      · rw [haddr] at hbad
        cases hbad
      · exact hne hbad
    · rintro ⟨hoff, hc⟩
      exact hoff (hcontrol hc)

/-- The desktop accepts the settings with which the agent runs, if the address is good whether
media is on or off, and control is only allowed with media. -/
theorem media_settings_agree (isAbsolute : String → Bool) (s : MediaSettings) :
    validateMediaSettings s = .ok () ↔ s.config.validate isAbsolute = .ok () ∧
      (∀ ip ∈ s.tailnetIp, RemoteCodex.tailnetIp ip.toList = true) ∧
        (s.allowControl = true → s.enabled = true) := by
  rw [settings_valid, config_valid]
  exact and_congr_right fun _ => ⟨fun h => ⟨h.address, h.control⟩, fun h => ⟨h.1, h.2⟩⟩

theorem media_settings_differ : ¬ ∀ (isAbsolute : String → Bool) (s : MediaSettings),
    validateMediaSettings s = .ok () ↔ s.config.validate isAbsolute = .ok () := by
  intro h
  have hrefused := (h (fun _ => true) ⟨false, true, none, []⟩).2 (by decide)
  exact absurd hrefused (by decide)

end Desktop
end RemoteCodex
