import RemoteCodex.Agent.Config

namespace RemoteCodex
set_option autoImplicit true
open Checks

namespace Url

/-- Host and port as the URL standard writes them: a parsed URL has no default port. -/
def authority (u : Url) : String :=
  match u.port with
  | none => u.host.getD ""
  | some port => u.host.getD "" ++ ":" ++ toString port

/-- The `Host` that a browser sends with a request for the URL. -/
def hostHeader (u : Url) : String := u.authority

/-- The `Origin` that a browser sends for a page of the URL. -/
def originHeader (u : Url) : String := u.scheme ++ "://" ++ u.authority

end Url

namespace Config

variable {parse : String → Except String Url} {isAbsolute : String → Bool} {c : Config}

theorem validate_origin (hc : c.validate parse isAbsolute = .ok ()) (hp : c.publicOrigin = some p)
    (hu : parse p = .ok u) : u.scheme = "https" := by
  unfold validate at hc
  rw [then_ok, then_ok, then_ok, then_ok, then_ok, hp, Option.elim_some] at hc
  obtain ⟨-, -, -, -, horigin, -⟩ := hc
  unfold checkPublicOrigin at horigin
  obtain ⟨v, hv, hexact⟩ := bind_ok.1 horigin
  simp only [refuse_ok, not_or, not_not] at hexact
  obtain ⟨hscheme, -⟩ := hexact
  rw [hu] at hv
  cases hv
  exact hscheme

theorem validate_local (hc : c.validate parse isAbsolute = .ok ()) :
    ∀ o ∈ c.localUiOrigins, o ∈ LOCAL_UI_ORIGINS := by
  unfold validate at hc
  rw [then_ok, then_ok, then_ok, then_ok, then_ok, then_ok, refuse_ok (c := _ = true)] at hc
  obtain ⟨-, -, -, -, -, hlocal, -⟩ := hc
  intro o ho
  by_contra hn
  exact hlocal (List.any_eq_true.2 ⟨o, ho, decide_eq_true hn⟩)

/-- The text begins as that of a secure origin. -/
def Secure (s : String) : Prop := s.toList.take 5 = "https".toList

instance : Decidable (Secure s) := inferInstanceAs (Decidable (_ = _))

theorem local_insecure : ∀ o ∈ LOCAL_UI_ORIGINS, ¬ Secure o := by decide

theorem localOrigin_insecure (c : Config) : ¬ Secure c.localOrigin := by
  have htake : c.localOrigin.toList.take 5 = "http:".toList := by
    rw [localOrigin, String.toList_append]
    rfl
  rw [Secure, htake]
  decide

theorem originHeader_secure {u : Url} (h : u.scheme = "https") : Secure u.originHeader := by
  rw [Secure, Url.originHeader, h, String.toList_append, String.toList_append]
  rfl

theorem hostAllowed_header (hp : c.publicOrigin = some p) (hu : parse p = .ok u) :
    c.hostAllowed parse u.hostHeader = true := by
  have hheader : u.hostHeader = u.port.elim (u.host.getD "")
      fun port => u.host.getD "" ++ ":" ++ toString port := by
    unfold Url.hostHeader Url.authority
    cases u.port <;> rfl
  rw [hostAllowed, hp, Option.bind_some, hu]
  simp only [Except.toOption, Option.any_some, hheader, beq_self_eq_true, Bool.or_true]

/-- Both headers that a browser sends for the public origin are accepted exactly if the
configuration spells the origin as the browser does, up to slashes at its end. -/
theorem public_origin_usable (hc : c.validate parse isAbsolute = .ok ())
    (hp : c.publicOrigin = some p) (hu : parse p = .ok u) :
    (c.originAllowed u.originHeader = true ∧ c.hostAllowed parse u.hostHeader = true) ↔
      trimEndMatchesChar '/' p = u.originHeader := by
  have hsecure := originHeader_secure (validate_origin hc hp hu)
  rw [and_iff_left (hostAllowed_header hp hu), originAllowed, List.any_eq_true]
  simp only [beq_iff_eq, exists_eq_right]
  rw [origins, hp, List.append_assoc, List.mem_append, List.singleton_append, List.mem_cons,
    Option.map_some, Option.toList_some, List.mem_singleton]
  constructor
  · rintro (hlocal | hlocal | hpublic)
    · exact absurd hsecure (local_insecure _ (validate_local hc _ hlocal))
    · exact absurd (hlocal ▸ hsecure) c.localOrigin_insecure
    · exact hpublic.symm
  · exact fun h => .inr (.inr h.symm)

/-- `Url::parse` on `https://` and a domain name of letters and dots; other texts are left out. -/
def parseDomain (s : String) : Except String Url :=
  let scheme := (s.toList.take 8).map Char.toLower
  let domain := (s.toList.drop 8).map Char.toLower
  if scheme = "https://".toList ∧ domain ≠ [] ∧ domain.all fun c => c.isLower || c == '.' then
    .ok ⟨"https", "", none, some (.ofList domain), none, "/", none, none⟩
  else .error "relative URL without a base"

/-- The defaults, with a public origin. -/
def withOrigin (origin : String) : Config where
  bind := ⟨"127.0.0.1:3847", 3847, true⟩
  publicOrigin := some origin
  localUiOrigins := ["http://tauri.localhost", "tauri://localhost"]
  maxSessions := 8
  ringBytes := 8 * 1024 * 1024
  allowGuiExperiments := false
  media := Media.MediaConfig.withDefaults ⟨false, false, none, []⟩

def agentUrl : Url := ⟨"https", "", none, some "agent.example", none, "/", none, none⟩

theorem public_origin_usable_lower :
    ((withOrigin "https://agent.example").originAllowed agentUrl.originHeader = true ∧
        (withOrigin "https://agent.example").hostAllowed parseDomain agentUrl.hostHeader = true) ↔
      trimEndMatchesChar '/' "https://agent.example" = agentUrl.originHeader :=
  have hvalid : (withOrigin "https://agent.example").validate parseDomain (fun _ => true) =
    .ok () := by decide
  have hparse : parseDomain "https://agent.example" = .ok agentUrl := by decide
  public_origin_usable hvalid rfl hparse

theorem public_origin_unusable : ¬ ∀ (c : Config) (p : String) (u : Url),
    c.validate parseDomain (fun _ => true) = .ok () → c.publicOrigin = some p →
      parseDomain p = .ok u →
        c.originAllowed u.originHeader = true ∧ c.hostAllowed parseDomain u.hostHeader = true := by
  intro h
  have hvalid : (withOrigin "https://Agent.example").validate parseDomain (fun _ => true) =
    .ok () := by decide
  have hparse : parseDomain "https://Agent.example" = .ok agentUrl := by decide
  have hrefused : (withOrigin "https://Agent.example").originAllowed agentUrl.originHeader =
    false := by decide
  have hallowed := (h _ _ _ hvalid rfl hparse).1
  rw [hrefused] at hallowed
  cases hallowed

end Config
end RemoteCodex
