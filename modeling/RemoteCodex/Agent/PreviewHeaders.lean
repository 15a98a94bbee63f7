import RemoteCodex.Lib.Base64
import RemoteCodex.Lib.Http
import RemoteCodex.Lib.Pieces
import RemoteCodex.Agent.Preview

namespace RemoteCodex
set_option autoImplicit true
open Http

namespace Preview

def CONNECTION : HeaderName := ⟨"connection", by decide⟩
def COOKIE : HeaderName := ⟨"cookie", by decide⟩

/-- The headers of a single connection. -/
def hopByHop : List HeaderName :=
  [CONNECTION, ⟨"keep-alive", by decide⟩, ⟨"proxy-authenticate", by decide⟩,
    ⟨"proxy-authorization", by decide⟩, ⟨"te", by decide⟩, ⟨"trailer", by decide⟩,
    ⟨"transfer-encoding", by decide⟩, ⟨"upgrade", by decide⟩]

/-- The text of the first value of a header, empty if there is none or it is no text. -/
def headerText (h : HeaderMap) (name : HeaderName) : String :=
  ((h.get name).bind HeaderValue.toStr).getD ""

/-- A name that is no header name is in no map. -/
def removeText (h : HeaderMap) (name : String) : HeaderMap :=
  match HeaderName.parse name with
  | some name => h.remove name
  | none => h

def stripHopByHop (h : HeaderMap) : HeaderMap :=
  let listed := ((headerText h CONNECTION).toList.splitOn ',').map fun s => trim (String.ofList s)
  (listed.foldl removeText h).removeAll hopByHop

/-- The headers of a request that its upstream does not get, or not as they are. -/
def withheld : List HeaderName :=
  [⟨"authorization", by decide⟩, COOKIE, ⟨"forwarded", by decide⟩,
    ⟨"x-forwarded-for", by decide⟩, ⟨"x-forwarded-host", by decide⟩,
    ⟨"x-forwarded-proto", by decide⟩, ⟨"tailscale-user-login", by decide⟩,
    ⟨"tailscale-user-name", by decide⟩, ⟨"sec-websocket-key", by decide⟩,
    ⟨"sec-websocket-version", by decide⟩, ⟨"sec-websocket-protocol", by decide⟩]

def cookiePrefix (id : Uuid) : String := "rcapp_" ++ id.simple ++ "_"

/-- `str::strip_prefix` -/
def stripPrefix (start s : String) : Option String :=
  if start.toList <+: s.toList then some (String.ofList (s.toList.drop start.toList.length))
  else none

/-- The cookie of an upstream behind the name that the browser has for it. -/
def unwrapCookie (id : Uuid) (p : String × String) : Option (String × String) := do
  let encoded ← stripPrefix (cookiePrefix id) p.1
  let bytes ← Base64.decode encoded.toList
  let decoded ← Text.fromUtf8 bytes
  if bytes.any fun b => b ≤ 32 || 127 ≤ b || b == 59 || b == 61 then none
  else some (decoded, p.2)

def forwardedCookies (id : Uuid) (cookies : String) : List (String × String) :=
  (cookiePairs cookies).filterMap (unwrapCookie id)

/-- The text of a `Cookie` header with these cookies. -/
def cookieText (cookies : List (String × String)) : String :=
  "; ".intercalate (cookies.map fun p => p.1 ++ "=" ++ p.2)

def filteredRequestHeaders (input : HeaderMap) (id : Uuid) : HeaderMap :=
  let h := (stripHopByHop input).removeAll withheld
  let cookies := cookieText (forwardedCookies id (headerText input COOKIE))
  if cookies = "" then h
  else
    match HeaderValue.fromStr cookies with
    | some v => h.insert COOKIE v
    | none => h

/-- A space or a tab. -/
def isOws (c : Char) : Bool := c == ' ' || c == '\t'

/-- The elements of a field value that is a comma list. -/
def elements (v : HeaderValue) : List String :=
  (v.latin1.toList.splitOn ',').map fun s => String.ofList (Pieces.strip isOws s)

/-- An element of the field value is this header name, in any case. -/
def Names (v : HeaderValue) (name : HeaderName) : Prop :=
  ∃ e ∈ elements v, HeaderName.parse e = some name

theorem foldl_removeText (h : HeaderMap) (texts : List String) :
    texts.foldl removeText h = h.removeAll (texts.filterMap HeaderName.parse) := by
  induction texts generalizing h with
  | nil => rfl
  | cons s texts ih =>
    rw [List.foldl_cons, ih, removeText]
    cases hp : HeaderName.parse s with
    | none => rw [List.filterMap_cons_none hp]
    | some name => rw [List.filterMap_cons_some hp]; rfl

theorem isWhitespace_visible {c : Char} (h : (32 ≤ c.toNat ∧ c.toNat < 127) ∨ c.toNat = 9) :
    isWhitespace c = isOws c := by
  have hall : ∀ n, n < 127 → 32 ≤ n ∨ n = 9 →
      isWhitespace (Char.ofNat n) = isOws (Char.ofNat n) := by decide
  have hc := hall c.toNat (by omega) (by omega)
  rwa [Char.ofNat_toNat] at hc

/-- What is trimmed off visible text are spaces and tabs. -/
theorem trim_visible {v : HeaderValue} {s : List Char} (hv : v.visible = true)
    (hs : ∀ c ∈ s, c ∈ v.latin1.toList) :
    trim (String.ofList s) = String.ofList (Pieces.strip isOws s) := by
  rw [trim, String.toList_ofList]
  refine congrArg String.ofList ?_
  apply Pieces.strip_congr
  exact fun c hc => isWhitespace_visible (HeaderValue.visible_char hv (hs c hc))

theorem headerText_visible {v : HeaderValue} (hg : h.get name = some v) (hv : v.visible = true) :
    headerText h name = v.latin1 := by
  rw [headerText, hg, Option.bind_some, HeaderValue.toStr, if_pos hv]
  rfl

theorem headerText_hidden (hv : ∀ v, h.get name = some v → v.visible = false) :
    headerText h name = "" := by
  rw [headerText]
  cases hg : h.get name with
  | none => rfl
  | some v =>
    rw [Option.bind_some, HeaderValue.toStr, hv v hg]
    rfl

/-- The names that `strip_hop_by_hop` takes from the map. -/
def listedNames (h : HeaderMap) : List HeaderName :=
  (((headerText h CONNECTION).toList.splitOn ',').map fun s => trim (String.ofList s)).filterMap
    HeaderName.parse

/-- The names taken from the map are those of the first `Connection` field, if that is text. -/
theorem mem_listedNames (h : HeaderMap) (name : HeaderName) : name ∈ listedNames h ↔
    ∃ v, h.get CONNECTION = some v ∧ v.visible = true ∧ Names v name := by
  by_cases hv : ∃ v, h.get CONNECTION = some v ∧ v.visible = true
  · obtain ⟨v, hg, hv⟩ := hv
    have htexts : (v.latin1.toList.splitOn ',').map (fun s => trim (String.ofList s)) =
        elements v := by
      apply List.map_congr_left
      exact fun s hs => trim_visible hv fun c hc => (Pieces.mem_piece hs hc).1
    rw [listedNames, headerText_visible hg hv, htexts, List.mem_filterMap]
    constructor
    · exact fun hn => ⟨v, hg, hv, hn⟩
    · rintro ⟨v', hg', _, hn⟩
      cases hg.symm.trans hg'
      exact hn
  · have hhidden : headerText h CONNECTION = "" := by
      apply headerText_hidden
      intro v hg
      rw [← Bool.not_eq_true]
      exact fun hvis => hv ⟨v, hg, hvis⟩
    have hnone : listedNames h = [] := by
      rw [listedNames, hhidden]
      decide
    rw [hnone]
    exact iff_of_false List.not_mem_nil fun ⟨v, hg, hvis, _⟩ => hv ⟨v, hg, hvis⟩

theorem stripHopByHop_apply (h : HeaderMap) (name : HeaderName) :
    stripHopByHop h name = if name ∈ hopByHop ∨ name ∈ listedNames h then [] else h name := by
  simp only [stripHopByHop]
  rw [HeaderMap.removeAll_apply, foldl_removeText, HeaderMap.removeAll_apply, ← listedNames]
  by_cases hop : name ∈ hopByHop
  · rw [if_pos hop, if_pos (.inl hop)]
  · rw [if_neg hop]
    exact if_congr (by rw [or_iff_right hop]) rfl rfl

/-- All headers of the connection are removed if and only if each header of the map that some
`Connection` field names is one of the known ones, or is named by the first `Connection` field
and this is visible ASCII. -/
theorem hop_by_hop_iff (h : HeaderMap) :
    (∀ name, (name ∈ hopByHop ∨ ∃ v ∈ h CONNECTION, Names v name) → stripHopByHop h name = []) ↔
      ∀ name, h name ≠ [] → (∃ v ∈ h CONNECTION, Names v name) →
        name ∈ hopByHop ∨ ∃ v, h.get CONNECTION = some v ∧ v.visible = true ∧ Names v name := by
  constructor
  · intro hall name hne hn
    by_contra hnot
    rw [← mem_listedNames] at hnot
    have hgone := hall name (.inr hn)
    rw [stripHopByHop_apply, if_neg hnot] at hgone
    exact hne hgone
  · intro hwhen name hn
    rw [stripHopByHop_apply]
    split
    · rfl
    · next hnot =>
      rw [mem_listedNames] at hnot
      rcases hn with hop | hn
      · exact absurd (.inl hop) hnot
      · by_contra hne
        exact hnot (hwhen name hne hn)

/-- The second of two `Connection` fields is not looked at. -/
theorem hop_by_hop_second : ∃ (h : HeaderMap) (name : HeaderName),
    (∃ v ∈ h CONNECTION, Names v name) ∧ stripHopByHop h name ≠ [] := by
  let secret : HeaderName := ⟨"x-remove", by decide⟩
  let h := ((HeaderMap.empty.append CONNECTION (.fromStatic "close" (by decide))).append
    CONNECTION (.fromStatic "X-Remove" (by decide))).append secret
    (.fromStatic "secret" (by decide))
  refine ⟨h, secret, ⟨_, List.mem_cons_of_mem _ (List.mem_cons_self ..), ?_⟩, by decide⟩
  exact ⟨"X-Remove", by decide, by decide⟩

/-- The headers that tell of the agent or of the tailnet. -/
def secrets : List HeaderName :=
  [⟨"authorization", by decide⟩, ⟨"forwarded", by decide⟩, ⟨"x-forwarded-for", by decide⟩,
    ⟨"x-forwarded-host", by decide⟩, ⟨"x-forwarded-proto", by decide⟩,
    ⟨"tailscale-user-login", by decide⟩, ⟨"tailscale-user-name", by decide⟩]

/-- The name and the value of a piece of a `Cookie` header. -/
def cookiePair (piece : List Char) : Option (String × String) :=
  splitOnce '=' (trim (String.ofList piece))

/-- The pieces are the same, or cookies of one name that differ in their values; the name does not
carry the prefix of the preview. -/
def SameCookie (id : Uuid) (p p' : List Char) : Prop :=
  p = p' ∨ ∃ name x x', cookiePair p = some (name, x) ∧ cookiePair p' = some (name, x') ∧
    ¬ (cookiePrefix id).toList <+: name.toList

def SameCookies (id : Uuid) (v v' : HeaderValue) : Prop :=
  List.Forall₂ (SameCookie id) (v.latin1.toList.splitOn ';') (v'.latin1.toList.splitOn ';')

/-- The maps differ only in what the upstream is not to learn. -/
structure Alike (id : Uuid) (h h' : HeaderMap) : Prop where
  others : ∀ name, name ∉ secrets → name ≠ COOKIE → h name = h' name
  cookies : List.Forall₂ (SameCookies id) (h COOKIE) (h' COOKIE)

/-- All values of the map are visible ASCII. -/
def Visible (h : HeaderMap) : Prop := ∀ name, ∀ v ∈ h name, v.visible = true

theorem unwrapCookie_foreign {id : Uuid} (hn : ¬ (cookiePrefix id).toList <+: name.toList)
    (x : String) : unwrapCookie id (name, x) = none := by
  rw [unwrapCookie, stripPrefix, if_neg hn]
  rfl

theorem forwardedCookies_eq (id : Uuid) (cookies : String) : forwardedCookies id cookies =
    (cookies.toList.splitOn ';').filterMap fun p => (cookiePair p).bind (unwrapCookie id) := by
  rw [forwardedCookies, cookiePairs, List.filterMap_filterMap]
  rfl

/-- Equal names without the prefix have nothing forwarded of them. -/
theorem SameCookie.unwrap {id : Uuid} (h : SameCookie id p p') :
    (cookiePair p).bind (unwrapCookie id) = (cookiePair p').bind (unwrapCookie id) := by
  rcases h with rfl | ⟨name, x, x', hx, hx', hn⟩
  · rfl
  · rw [hx, hx', Option.bind_some, Option.bind_some, unwrapCookie_foreign hn,
      unwrapCookie_foreign hn]

theorem SameCookies.forwarded {id : Uuid} (h : SameCookies id v v') :
    forwardedCookies id v.latin1 = forwardedCookies id v'.latin1 := by
  rw [forwardedCookies_eq, forwardedCookies_eq]
  have hall {ps ps' : List (List Char)} (hp : List.Forall₂ (SameCookie id) ps ps') :
      ps.filterMap (fun p => (cookiePair p).bind (unwrapCookie id)) =
        ps'.filterMap fun p => (cookiePair p).bind (unwrapCookie id) := by
    induction hp with
    | nil => rfl
    | cons hc _ ih => rw [List.filterMap_cons, List.filterMap_cons, hc.unwrap, ih]
  exact hall h

theorem Alike.forwarded {id : Uuid} (ha : Alike id h h') (hv : Visible h) (hv' : Visible h') :
    forwardedCookies id (headerText h COOKIE) = forwardedCookies id (headerText h' COOKIE) := by
  have hc := ha.cookies
  cases hh : h COOKIE with
  | nil =>
    rw [hh] at hc
    have hh' := List.forall₂_nil_left_iff.1 hc
    simp only [Preview.headerText, HeaderMap.get, hh, hh']
  | cons v vs =>
    rw [hh] at hc
    obtain ⟨v', vs', hs, _, hh'⟩ := List.forall₂_cons_left_iff.1 hc
    have hget : h.get COOKIE = some v := congrArg List.head? hh
    have hget' : h'.get COOKIE = some v' := congrArg List.head? hh'
    rw [headerText_visible hget (hv COOKIE v (hh ▸ List.mem_cons_self ..)),
      headerText_visible hget' (hv' COOKIE v' (hh' ▸ List.mem_cons_self ..))]
    exact hs.forwarded

/-- The upstream's headers depend on those it gets, on the `Connection` field and on the
forwarded cookies. -/
theorem filtered_congr {id : Uuid} {h h' : HeaderMap} (hconnection : h CONNECTION = h' CONNECTION)
    (hkept : ∀ name, name ∉ withheld → h name = h' name)
    (hcookies : forwardedCookies id (headerText h COOKIE) =
      forwardedCookies id (headerText h' COOKIE)) :
    filteredRequestHeaders h id = filteredRequestHeaders h' id := by
  have hlisted : listedNames h = listedNames h' := by
    simp only [listedNames, headerText, HeaderMap.get, hconnection]
  have hmap : (stripHopByHop h).removeAll withheld = (stripHopByHop h').removeAll withheld := by
    funext name
    rw [HeaderMap.removeAll_apply, HeaderMap.removeAll_apply]
    split
    · rfl
    · next hn => simp only [stripHopByHop_apply, hlisted, hkept name hn]
  simp only [filteredRequestHeaders, hmap, hcookies]

/-- Two requests that differ only in the secrets of the agent are the same to the upstream. -/
theorem filtered_alike {id : Uuid} (ha : Alike id h h') (hv : Visible h) (hv' : Visible h') :
    filteredRequestHeaders h id = filteredRequestHeaders h' id := by
  apply filtered_congr (ha.others CONNECTION (by decide) (by decide)) _ (ha.forwarded hv hv')
  intro name hn
  apply ha.others name
  · intro hs
    have hsub : secrets ⊆ withheld := by decide
    exact hn (hsub hs)
  · rintro rfl
    exact hn (by decide)

theorem Visible.insert (h : Visible m) (hv : v.visible = true) : Visible (m.insert name v) := by
  intro name' v' hm
  rw [HeaderMap.insert_apply] at hm
  split at hm
  · rwa [List.mem_singleton.1 hm]
  · exact h name' v' hm

/-- Two requests with different tokens and different credentials of the gateway. -/
theorem filtered_alike_credentials : ∃ (id : Uuid) (h h' : HeaderMap), Alike id h h' ∧
    h COOKIE ≠ h' COOKIE ∧ filteredRequestHeaders h id = filteredRequestHeaders h' id := by
  let bearer : HeaderName := ⟨"authorization", by decide⟩
  let one : HeaderValue := .fromStatic "__Host-rcpv-0=one; a" (by decide)
  let two : HeaderValue := .fromStatic "__Host-rcpv-0=two; a" (by decide)
  let h := (HeaderMap.empty.insert bearer (.fromStatic "Bearer one" (by decide))).insert COOKIE one
  let h' := (HeaderMap.empty.insert bearer (.fromStatic "Bearer two" (by decide))).insert COOKIE two
  have hempty : Visible .empty := fun _ _ hm => (List.not_mem_nil hm).elim
  have hv : Visible h := (hempty.insert (by decide)).insert (by decide)
  have hv' : Visible h' := (hempty.insert (by decide)).insert (by decide)
  have hcookie : h COOKIE = [one] := HeaderMap.insert_apply .. |>.trans (if_pos rfl)
  have hcookie' : h' COOKIE = [two] := HeaderMap.insert_apply .. |>.trans (if_pos rfl)
  have ha : Alike (.fill 0) h h' := by
    constructor
    · intro name hs hc
      have hb : name ≠ bearer := by
        rintro rfl
        exact hs (by decide)
      simp only [h, h', HeaderMap.insert_apply, if_neg hc, if_neg hb]
    · have hone : one.latin1.toList.splitOn ';' = ["__Host-rcpv-0=one".toList, " a".toList] := by
        decide
      have htwo : two.latin1.toList.splitOn ';' = ["__Host-rcpv-0=two".toList, " a".toList] := by
        decide
      have hsame : SameCookies (.fill 0) one two := by
        rw [SameCookies, hone, htwo]
        refine .cons (.inr ⟨"__Host-rcpv-0", "one", "two", ?_⟩) (.cons (.inl rfl) .nil)
        decide
      rw [hcookie, hcookie']
      exact .cons hsame .nil
  refine ⟨.fill 0, h, h', ha, ?_, filtered_alike ha hv hv'⟩
  rw [hcookie, hcookie']
  decide

end Preview
end RemoteCodex
