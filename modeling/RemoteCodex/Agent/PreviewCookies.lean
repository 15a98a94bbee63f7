import RemoteCodex.Agent.PreviewHeaders

namespace RemoteCodex
set_option autoImplicit true
open Http

/-- The digits of one byte of a UUID. -/
def hexPair (b : UInt8) : List Char :=
  [Nat.digitChar (b.toNat / 16), Nat.digitChar (b.toNat % 16)]

theorem hexPair_injective : Function.Injective hexPair := by
  intro b b' h
  have hdigit : ∀ m < 16, ∀ n < 16, Nat.digitChar m = Nat.digitChar n → m = n := by decide
  obtain ⟨hhigh, hlow⟩ := List.cons.inj h
  obtain ⟨hlow, _⟩ := List.cons.inj hlow
  have hb := b.toNat_lt
  have hb' := b'.toNat_lt
  have hdiv := hdigit _ (by omega) _ (by omega) hhigh
  have hmod := hdigit _ (by omega) _ (by omega) hlow
  exact UInt8.toNat_inj.1 (by omega)

theorem hexPairs_injective {l l' : List UInt8} (h : l.flatMap hexPair = l'.flatMap hexPair) :
    l = l' := by
  induction l generalizing l' with
  | nil =>
    cases l' with
    | nil => rfl
    | cons b' l' => cases h
  | cons b l ih =>
    cases l' with
    | nil => cases h
    | cons b' l' =>
      rw [List.flatMap_cons, List.flatMap_cons] at h
      obtain ⟨hb, hl⟩ := List.append_inj h rfl
      rw [hexPair_injective hb, ih hl]

theorem Uuid.toList_simple (u : Uuid) : u.simple.toList = u.bytes.flatMap hexPair :=
  String.toList_ofList

theorem Uuid.simple_injective : Function.Injective Uuid.simple := by
  intro u u' h
  have hbytes := congrArg String.toList h
  rw [toList_simple, toList_simple] at hbytes
  cases u
  cases u'
  exact Uuid.mk.injEq .. |>.mpr (hexPairs_injective hbytes)

theorem Uuid.length_simple (u : Uuid) : u.simple.toList.length = 32 := by
  have hlength (l : List UInt8) : (l.flatMap hexPair).length = 2 * l.length := by
    induction l with
    | nil => rfl
    | cons b l ih =>
      rw [List.flatMap_cons, List.length_append, ih, List.length_cons]
      simp only [hexPair, List.length_cons, List.length_nil]
      omega
  rw [toList_simple, hlength, u.length_eq]

namespace Preview

theorem toList_cookiePrefix (id : Uuid) :
    (cookiePrefix id).toList = "rcapp_".toList ++ (id.simple.toList ++ ['_']) := by
  rw [cookiePrefix, String.toList_append, String.toList_append, List.append_assoc]
  rfl

/-- One name does not carry the prefixes of two previews. -/
theorem cookiePrefix_unique (h : (cookiePrefix a).toList <+: l)
    (h' : (cookiePrefix b).toList <+: l) : a = b := by
  have hlength (u : Uuid) : (cookiePrefix u).toList.length = 39 := by
    rw [toList_cookiePrefix, List.length_append, List.length_append, u.length_simple]
    rfl
  have heq : (cookiePrefix a).toList = (cookiePrefix b).toList := by
    apply (List.prefix_of_prefix_length_le h h' _).eq_of_length
    · rw [hlength, hlength]
    · rw [hlength, hlength]
  rw [toList_cookiePrefix, toList_cookiePrefix] at heq
  have hsimple := List.append_cancel_right (List.append_cancel_left heq)
  exact Uuid.simple_injective (String.toList_inj.1 hsimple)

/-- The credentials of the gateway do not carry the prefix of a preview. -/
theorem cookiePrefix_cookieName (id other : Uuid) :
    ¬ (cookiePrefix id).toList <+: (cookieName other).toList := by
  rw [toList_cookiePrefix, cookieName, String.toList_append]
  rintro ⟨t, ht⟩
  have hhead : some 'r' = some '_' := congrArg List.head? ht
  exact absurd hhead (by decide)

theorem splitOnce_append {before after : List Char} (hs : s.toList = before ++ c :: after)
    (hc : c ∉ before) : splitOnce c s = some (String.ofList before, String.ofList after) := by
  have hkeep : ∀ x ∈ before, (x != c) = true := by
    intro x hx
    rw [bne_iff_ne]
    rintro rfl
    exact hc hx
  rw [splitOnce, hs, List.span_eq_takeWhile_dropWhile, List.takeWhile_append_of_pos hkeep,
    List.dropWhile_append_of_pos hkeep, List.takeWhile_cons_of_neg (by simp),
    List.dropWhile_cons_of_neg (by simp), List.append_nil]

theorem splitOnce_some (h : splitOnce c s = some (before, after)) :
    s.toList = before.toList ++ c :: after.toList ∧ c ∉ before.toList := by
  rw [splitOnce, List.span_eq_takeWhile_dropWhile] at h
  cases hd : s.toList.dropWhile (· != c) with
  | nil =>
    rw [hd] at h
    cases h
  | cons x rest =>
    rw [hd] at h
    cases h
    have hx := List.head?_dropWhile_not (· != c) s.toList
    rw [hd] at hx
    have hxc : x = c := by simpa using hx
    subst hxc
    rw [String.toList_ofList, String.toList_ofList, ← hd, List.takeWhile_append_dropWhile]
    refine ⟨rfl, fun hm => ?_⟩
    have hne := List.all_eq_true.1 List.all_takeWhile _ hm
    rw [bne_self_eq_false] at hne
    cases hne

/-- The text of one cookie. -/
def pairText (p : String × String) : List Char := p.1.toList ++ '=' :: p.2.toList

theorem toList_cookieText (cookies : List (String × String)) :
    (cookieText cookies).toList = [';', ' '].intercalate (cookies.map pairText) := by
  rw [cookieText, String.toList_intercalate, List.map_map]
  refine congrArg _ (List.map_congr_left fun p _ => ?_)
  rw [Function.comp_apply, String.toList_append, String.toList_append, pairText,
    List.append_assoc]
  rfl

/-- The cookies in a part of a header. -/
def pairsOf (l : List Char) : List (String × String) := (l.splitOn ';').filterMap cookiePair

theorem cookiePairs_eq (cookies : String) : cookiePairs cookies = pairsOf cookies.toList := rfl

theorem pairsOf_append (l l' : List Char) : pairsOf (l ++ ';' :: l') = pairsOf l ++ pairsOf l' := by
  rw [pairsOf, List.splitOn_append_cons_self, List.filterMap_append]
  rfl

theorem cookiePair_space (l : List Char) : cookiePair (' ' :: l) = cookiePair l := by
  rw [cookiePair, cookiePair, trim, trim, String.toList_ofList, String.toList_ofList,
    List.dropWhile_cons_of_pos (by decide)]

theorem pairsOf_space (l : List Char) : pairsOf (' ' :: l) = pairsOf l := by
  rw [pairsOf, pairsOf, List.splitOn_cons_eq_if_modifyHead, if_neg (by decide)]
  cases hl : l.splitOn ';' with
  | nil => rfl
  | cons first rest =>
    rw [List.modifyHead_cons, List.filterMap_cons, List.filterMap_cons, cookiePair_space]

/-- What is read from a header is what is read from each of its cookies. -/
theorem cookiePairs_cookieText (cookies : List (String × String)) :
    cookiePairs (cookieText cookies) = cookies.flatMap fun p => pairsOf (pairText p) := by
  rw [cookiePairs_eq, toList_cookieText]
  induction cookies with
  | nil => decide
  | cons p cookies ih =>
    rw [List.flatMap_cons, ← ih]
    cases cookies with
    | nil =>
      rw [List.map_singleton, List.intercalate_singleton, List.map_nil, List.intercalate_nil]
      exact (List.append_nil _).symm.trans (congrArg _ (by decide))
    | cons q cookies =>
      rw [List.map_cons, List.map_cons, List.intercalate_cons_cons, List.append_assoc,
        List.cons_append, pairsOf_append, List.cons_append, List.nil_append, pairsOf_space]

/-- A name and a value that a reader gets back from their text. -/
structure Clean (p : String × String) : Prop where
  name : ∀ c ∈ p.1.toList, isWhitespace c = false ∧ c ≠ ';' ∧ c ≠ '='
  value : ';' ∉ p.2.toList
  last : ∀ c ∈ p.2.toList.getLast?, isWhitespace c = false

theorem Clean.pairsOf (h : Clean p) : pairsOf (pairText p) = [p] := by
  have hpiece : ';' ∉ pairText p := by
    intro hm
    rcases List.mem_append.1 hm with hm | hm
    · exact (h.name _ hm).2.1 rfl
    · rcases List.mem_cons.1 hm with hm | hm
      · cases hm
      · exact h.value hm
  have hbare : Pieces.Bare isWhitespace (pairText p) := by
    constructor
    · cases hn : p.1.toList with
      | nil =>
        rw [pairText, hn]
        rintro c ⟨⟩
        decide
      | cons c l =>
        rw [pairText, hn]
        rintro c ⟨⟩
        exact (h.name _ (hn ▸ List.mem_cons_self ..)).1
    · rw [pairText, List.getLast?_append_cons]
      cases hv : p.2.toList with
      | nil =>
        rintro c ⟨⟩
        decide
      | cons c l =>
        rw [List.getLast?_cons_cons, ← hv]
        exact h.last
  have hpair : cookiePair (pairText p) = some p := by
    have htrim : (trim (String.ofList (pairText p))).toList = pairText p := by
      rw [trim, String.toList_ofList, String.toList_ofList]
      exact hbare.strip_eq
    rw [cookiePair, splitOnce_append htrim fun hm => (h.name _ hm).2.2 rfl,
      String.ofList_toList, String.ofList_toList]
  rw [Preview.pairsOf, List.splitOn_eq_singleton hpiece, List.filterMap_cons_some hpair,
    List.filterMap_nil]

theorem cookiePairs_clean {cookies : List (String × String)} (h : ∀ p ∈ cookies, Clean p) :
    cookiePairs (cookieText cookies) = cookies := by
  rw [cookiePairs_cookieText]
  induction cookies with
  | nil => rfl
  | cons p cookies ih =>
    rw [List.flatMap_cons, (h p (List.mem_cons_self ..)).pairsOf,
      ih fun q hq => h q (List.mem_cons_of_mem _ hq)]
    rfl

/-- A character of visible ASCII, or a tab. -/
def Plain (c : Char) : Prop := (32 ≤ c.toNat ∧ c.toNat < 127) ∨ c.toNat = 9

theorem stripPrefix_append (start : String) (rest : List Char) :
    stripPrefix start (start ++ String.ofList rest) = some (String.ofList rest) := by
  have hlist : (start ++ String.ofList rest).toList = start.toList ++ rest := by
    rw [String.toList_append, String.toList_ofList]
  rw [stripPrefix, hlist, if_pos (List.prefix_append _ _), List.drop_left]

/-- The bytes that the name of a forwarded cookie may have. -/
theorem unwrapCookie_some {id : Uuid} (h : unwrapCookie id (name, value) = some p) :
    p.2 = value ∧ ∀ c ∈ p.1.toList, 32 < c.toNat ∧ c.toNat < 127 ∧ c ≠ ';' ∧ c ≠ '=' := by
  simp only [unwrapCookie, Option.bind_eq_bind, Option.bind_eq_some_iff] at h
  obtain ⟨encoded, _, bytes, _, decoded, hd, h⟩ := h
  split at h
  · cases h
  · next hany =>
    cases h
    have hbytes : ∀ b ∈ bytes, 32 < b.toNat ∧ b.toNat < 127 ∧ b ≠ 59 ∧ b ≠ 61 := by
      intro b hb
      have hnot := List.any_eq_false.1 (Bool.eq_false_iff.2 hany) b hb
      simp only [Bool.or_eq_true, decide_eq_true_eq, beq_iff_eq, not_or] at hnot
      obtain ⟨⟨⟨hlow, hhigh⟩, hsemi⟩, heq⟩ := hnot
      rw [UInt8.le_iff_toNat_le, Nat.not_le] at hlow hhigh
      exact ⟨hlow, hhigh, hsemi, heq⟩
    have hascii := Text.fromUtf8_ascii fun b hb => (hbytes b hb).2.1.trans (by decide : 127 < 128)
    cases hascii.symm.trans hd
    refine ⟨rfl, ?_⟩
    rw [String.toList_ofList]
    intro c hc
    obtain ⟨b, hb, he⟩ := Text.mem_latin1 hc
    obtain ⟨hlow, hhigh, hsemi, heq⟩ := hbytes b hb
    rw [he]
    refine ⟨hlow, hhigh, ?_, ?_⟩
    · rintro rfl
      exact hsemi (UInt8.toNat_inj.1 he.symm)
    · rintro rfl
      exact heq (UInt8.toNat_inj.1 he.symm)

/-- The value of a cookie comes from its piece, without the space after it. -/
theorem cookiePair_some (h : cookiePair piece = some (name, value)) :
    (∀ c ∈ value.toList, c ∈ piece) ∧ ∀ c ∈ value.toList.getLast?, isWhitespace c = false := by
  obtain ⟨hsplit, _⟩ := splitOnce_some h
  rw [trim, String.toList_ofList, String.toList_ofList] at hsplit
  have hbare := Pieces.strip_bare isWhitespace piece
  have hsub := Pieces.strip_subset isWhitespace piece
  rw [Pieces.strip, hsplit] at hbare hsub
  constructor
  · exact fun c hc => hsub (List.mem_append_right _ (List.mem_cons_of_mem _ hc))
  · intro c hc
    apply hbare.2
    rw [List.getLast?_append_cons]
    cases hv : value.toList with
    | nil => rw [hv] at hc; cases hc
    | cons x l => rwa [List.getLast?_cons_cons, ← hv]

/-- What is forwarded of a visible header is visible, and is read as it was written. -/
theorem forwardedCookies_clean {c : HeaderValue} {id : Uuid} (hv : c.visible = true)
    (hp : p ∈ forwardedCookies id c.latin1) : Clean p ∧ ∀ x ∈ pairText p, Plain x := by
  obtain ⟨⟨name, value⟩, hm, hu⟩ := List.mem_filterMap.1 hp
  obtain ⟨piece, hpiece, hpair⟩ := List.mem_filterMap.1 hm
  obtain ⟨hval, hname⟩ := unwrapCookie_some hu
  obtain ⟨hsub, hlast⟩ := cookiePair_some hpair
  have hplain : ∀ x ∈ p.2.toList, Plain x ∧ x ≠ ';' := by
    intro x hx
    rw [hval] at hx
    obtain ⟨hl, hs⟩ := Pieces.mem_piece hpiece (hsub x hx)
    exact ⟨HeaderValue.visible_char hv hl, hs⟩
  constructor
  · refine ⟨?_, fun hm => (hplain _ hm).2 rfl, hval ▸ hlast⟩
    intro x hx
    obtain ⟨hlow, hhigh, hs, he⟩ := hname x hx
    refine ⟨?_, hs, he⟩
    rw [isWhitespace_visible (.inl ⟨hlow.le, hhigh⟩), isOws, Bool.or_eq_false_iff]
    constructor
    · rw [beq_eq_false_iff_ne]
      rintro rfl
      exact absurd hlow (by decide)
    · rw [beq_eq_false_iff_ne]
      rintro rfl
      exact absurd hlow (by decide)
  · intro x hx
    rcases List.mem_append.1 hx with hx | hx
    · exact .inl ⟨(hname x hx).1.le, (hname x hx).2.1⟩
    · rcases List.mem_cons.1 hx with rfl | hx
      · exact .inl (by decide)
      · exact (hplain x hx).1

theorem cookieText_plain {cookies : List (String × String)}
    (h : ∀ p ∈ cookies, ∀ x ∈ pairText p, Plain x) :
    ∀ x ∈ (cookieText cookies).toList, Plain x := by
  rw [toList_cookieText]
  induction cookies with
  | nil => exact fun x hx => (List.not_mem_nil hx).elim
  | cons p cookies ih =>
    have hp := h p (List.mem_cons_self ..)
    have hrest := ih fun q hq => h q (List.mem_cons_of_mem _ hq)
    cases cookies with
    | nil =>
      rw [List.map_singleton, List.intercalate_singleton]
      exact hp
    | cons q cookies =>
      rw [List.map_cons, List.map_cons, List.intercalate_cons_cons]
      intro x hx
      rcases List.mem_append.1 hx with hx | hx
      · rcases List.mem_append.1 hx with hx | hx
        · exact hp x hx
        · simp only [List.mem_cons, List.not_mem_nil, or_false] at hx
          rcases hx with rfl | rfl <;> exact .inl (by decide)
      · exact hrest x hx

theorem cookieText_eq_empty (cookies : List (String × String)) :
    cookieText cookies = "" ↔ cookies = [] := by
  constructor
  · intro h
    cases cookies with
    | nil => rfl
    | cons p cookies =>
      have hlist := congrArg String.toList h
      rw [toList_cookieText, List.map_cons] at hlist
      have hmem : '=' ∈ [';', ' '].intercalate (pairText p :: cookies.map pairText) := by
        cases cookies with
        | nil =>
          rw [List.map_nil, List.intercalate_singleton]
          exact List.mem_append_right _ (List.mem_cons_self ..)
        | cons q cookies =>
          rw [List.map_cons, List.intercalate_cons_cons]
          exact List.mem_append_left _ (List.mem_append_left _
            (List.mem_append_right _ (List.mem_cons_self ..)))
      rw [hlist] at hmem
      cases hmem
  · rintro rfl
    rfl

/-- The cookies in the text of a header, which is visible or empty. -/
theorem headerText_cases (h : HeaderMap) (name : HeaderName) : headerText h name = "" ∨
    ∃ v, h.get name = some v ∧ v.visible = true ∧ headerText h name = v.latin1 := by
  by_cases hv : ∃ v, h.get name = some v ∧ v.visible = true
  · obtain ⟨v, hg, hv⟩ := hv
    exact .inr ⟨v, hg, hv, headerText_visible hg hv⟩
  · left
    apply headerText_hidden
    intro v hg
    rw [← Bool.not_eq_true]
    exact fun hvis => hv ⟨v, hg, hvis⟩

theorem forwardedCookies_empty (id : Uuid) : forwardedCookies id "" = [] := by
  have hnone : cookiePairs "" = [] := by decide
  rw [forwardedCookies, hnone]
  rfl

theorem filtered_cookie_none {h : HeaderMap} {id : Uuid}
    (hn : forwardedCookies id (headerText h COOKIE) = []) :
    filteredRequestHeaders h id COOKIE = [] := by
  simp only [filteredRequestHeaders, hn]
  rw [if_pos ((cookieText_eq_empty []).2 rfl), HeaderMap.removeAll_apply, if_pos (by decide)]

/-- The upstream reads from the header it gets what was forwarded, and nothing else. -/
theorem filtered_cookie {h : HeaderMap} {id : Uuid}
    (hn : forwardedCookies id (headerText h COOKIE) ≠ []) :
    ∃ w, filteredRequestHeaders h id COOKIE = [w] ∧
      cookiePairs w.latin1 = forwardedCookies id (headerText h COOKIE) := by
  rcases headerText_cases h COOKIE with he | ⟨v, hg, hv, ht⟩
  · exact absurd (by rw [he, forwardedCookies_empty]) hn
  · rw [ht] at hn ⊢
    have hclean (p) (hp : p ∈ forwardedCookies id v.latin1) := forwardedCookies_clean hv hp
    obtain ⟨w, hw, _, hl⟩ := HeaderValue.fromStr_visible
      (cookieText_plain fun p hp => (hclean p hp).2)
    refine ⟨w, ?_, ?_⟩
    · simp only [filteredRequestHeaders, ht]
      rw [if_neg ((cookieText_eq_empty _).not.2 hn), hw]
      exact (HeaderMap.insert_apply ..).trans (if_pos rfl)
    · rw [hl]
      exact cookiePairs_clean fun p hp => (hclean p hp).1

/-- The operations of a cookie library, on its cookies. -/
structure CookieLib (κ : Type) where
  parse : String → Option κ
  name : κ → String
  value : κ → String
  setName : κ → String → κ
  unsetDomain : κ → κ
  setSecure : κ → Bool → κ
  render : κ → String

/-- The characters of a token. -/
def isTokenChar (c : Char) : Bool :=
  33 ≤ c.toNat && c.toNat < 127 && !"()<>@,;:\\\"/[]?=\x7b\x7d".toList.contains c

def IsToken (s : String) : Prop := s ≠ "" ∧ s.toList.all isTokenChar = true

/-- The characters that a cookie's value may have. -/
def isCookieOctet (c : Char) : Bool :=
  33 ≤ c.toNat && c.toNat < 127 && !"\",;\\".toList.contains c

/-- Nothing, or the attributes of a cookie. -/
def Attributes (s : String) : Prop := s = "" ∨ s.toList.head? = some ';'

/-- The library reads and writes names and values unchanged, and writes ASCII for what it has read
from ASCII. -/
structure CookieLib.Lawful (K : CookieLib κ) : Prop where
  parse_pair : ∀ name value rest, IsToken name → value.toList.all isCookieOctet = true →
    Attributes rest → ∃ c, K.parse (name ++ "=" ++ value ++ rest) = some c ∧
      K.name c = name ∧ K.value c = value
  name_setName : ∀ c name, K.name (K.setName c name) = name
  value_setName : ∀ c name, K.value (K.setName c name) = K.value c
  name_unsetDomain : ∀ c, K.name (K.unsetDomain c) = K.name c
  value_unsetDomain : ∀ c, K.value (K.unsetDomain c) = K.value c
  name_setSecure : ∀ c b, K.name (K.setSecure c b) = K.name c
  value_setSecure : ∀ c b, K.value (K.setSecure c b) = K.value c
  render_pair : ∀ c, ∃ rest, Attributes rest ∧
    K.render c = K.name c ++ "=" ++ K.value c ++ rest
  render_plain : ∀ text c name, K.parse text = some c → (∀ x ∈ text.toList, Plain x) →
    (∀ x ∈ name.toList, Plain x) →
      ∀ x ∈ (K.render (K.setSecure (K.unsetDomain (K.setName c name)) true)).toList, Plain x

/-- The names that an upstream may not use. -/
def reserved (name : String) : Bool :=
  "__Host-rcpv-".toList.isPrefixOf name.toList || "rcapp_".toList.isPrefixOf name.toList

/-- The name under which the browser has a cookie of the upstream. -/
def wrappedName (id : Uuid) (name : String) : String :=
  cookiePrefix id ++ String.ofList (Base64.encode (Text.utf8 name))

/-- What the browser gets for a `Set-Cookie` field of the upstream. -/
def rewriteCookie (K : CookieLib κ) (id : Uuid) (raw : HeaderValue) : Option HeaderValue := do
  let text ← raw.toStr
  let cookie ← K.parse text
  let old := K.name cookie
  if reserved old then none
  else
    let cookie := K.setName cookie (wrappedName id old)
    HeaderValue.fromStr (K.render (K.setSecure (K.unsetDomain cookie) true))

def SET_COOKIE : HeaderName := ⟨"set-cookie", by decide⟩
def CONTENT_SECURITY_POLICY : HeaderName := ⟨"content-security-policy", by decide⟩
def REFERRER_POLICY : HeaderName := ⟨"referrer-policy", by decide⟩
def X_CONTENT_TYPE_OPTIONS : HeaderName := ⟨"x-content-type-options", by decide⟩

def passCookie (K : CookieLib κ) (id : Uuid) (output : HeaderMap) (raw : HeaderValue) :
    HeaderMap :=
  match rewriteCookie K id raw with
  | some v => output.append SET_COOKIE v
  | none => output

/-- The headers of the response to the browser. -/
def responseHeaders (K : CookieLib κ) (id : Uuid) (response : HeaderMap) : HeaderMap :=
  let output := (stripHopByHop response).remove SET_COOKIE
  let output := (response SET_COOKIE).foldl (passCookie K id) output
  let output := output.append CONTENT_SECURITY_POLICY
    (.fromStatic "worker-src 'none'" (by decide))
  let output := output.insert REFERRER_POLICY (.fromStatic "no-referrer" (by decide))
  output.insert X_CONTENT_TYPE_OPTIONS (.fromStatic "nosniff" (by decide))

/-- The browser gets the cookies of the upstream rewritten, in their order, and no others. -/
theorem responseHeaders_setCookie (K : CookieLib κ) (id : Uuid) (response : HeaderMap) :
    responseHeaders K id response SET_COOKIE =
      (response SET_COOKIE).filterMap (rewriteCookie K id) := by
  have hfold (output : HeaderMap) (raws : List HeaderValue) :
      raws.foldl (passCookie K id) output SET_COOKIE =
        output SET_COOKIE ++ raws.filterMap (rewriteCookie K id) := by
    induction raws generalizing output with
    | nil => exact (List.append_nil _).symm
    | cons raw raws ih =>
      rw [List.foldl_cons, ih, passCookie]
      cases hr : rewriteCookie K id raw with
      | none => rw [List.filterMap_cons_none hr]
      | some v =>
        have happend : output.append SET_COOKIE v SET_COOKIE = output SET_COOKIE ++ [v] :=
          (HeaderMap.append_apply ..).trans (if_pos rfl)
        rw [List.filterMap_cons_some hr]
        exact (congrArg (· ++ _) happend).trans (List.append_assoc ..)
  simp only [responseHeaders]
  rw [HeaderMap.insert_apply, if_neg (by decide), HeaderMap.insert_apply, if_neg (by decide),
    HeaderMap.append_apply, if_neg (by decide), hfold, HeaderMap.remove_apply, if_pos rfl,
    List.nil_append]

/-- The name and the value that a browser takes from a `Set-Cookie` field. -/
def browserCookie (setCookie : String) : Option (String × String) :=
  (splitOnce '=' (String.ofList ((setCookie.toList.splitOn ';').headD []))).map fun p =>
    (String.ofList (Pieces.strip isOws p.1.toList), String.ofList (Pieces.strip isOws p.2.toList))

theorem isTokenChar_bounds (h : isTokenChar c = true) : 33 ≤ c.toNat ∧ c.toNat < 127 := by
  simp only [isTokenChar, Bool.and_eq_true, decide_eq_true_eq] at h
  exact h.1

/-- A character of a token is no space and no separator of cookies. -/
theorem isTokenChar_spec (h : isTokenChar c = true) :
    isOws c = false ∧ isWhitespace c = false ∧ c ≠ ';' ∧ c ≠ '=' := by
  obtain ⟨hlow, hhigh⟩ := isTokenChar_bounds h
  have hall : ∀ n, n < 127 → 33 ≤ n → isTokenChar (Char.ofNat n) = true →
      isOws (Char.ofNat n) = false ∧ isWhitespace (Char.ofNat n) = false ∧
        Char.ofNat n ≠ ';' ∧ Char.ofNat n ≠ '=' := by decide +kernel
  have hc := hall c.toNat hhigh hlow
  rw [Char.ofNat_toNat] at hc
  exact hc h

theorem isCookieOctet_spec (h : isCookieOctet c = true) :
    isOws c = false ∧ isWhitespace c = false ∧ c ≠ ';' := by
  have hbounds := h
  simp only [isCookieOctet, Bool.and_eq_true, decide_eq_true_eq] at hbounds
  have hall : ∀ n, n < 127 → 33 ≤ n → isCookieOctet (Char.ofNat n) = true →
      isOws (Char.ofNat n) = false ∧ isWhitespace (Char.ofNat n) = false ∧
        Char.ofNat n ≠ ';' := by decide +kernel
  have hc := hall c.toNat hbounds.1.2 hbounds.1.1
  rw [Char.ofNat_toNat] at hc
  exact hc h

theorem hexPair_token (b : UInt8) : ∀ c ∈ hexPair b, isTokenChar c = true := by
  have hall : ∀ n < 16, isTokenChar (Nat.digitChar n) = true := by decide
  have hb := b.toNat_lt
  intro c hc
  simp only [hexPair, List.mem_cons, List.not_mem_nil, or_false] at hc
  rcases hc with rfl | rfl
  · exact hall _ (by omega)
  · exact hall _ (by omega)

theorem wrappedName_token (id : Uuid) (name : String) :
    ∀ c ∈ (wrappedName id name).toList, isTokenChar c = true := by
  rw [wrappedName, String.toList_append, String.toList_ofList, toList_cookiePrefix,
    Uuid.toList_simple]
  intro c hc
  rcases List.mem_append.1 hc with hc | hc
  · rcases List.mem_append.1 hc with hc | hc
    · have hall : "rcapp_".toList.all isTokenChar = true := by decide
      exact List.all_eq_true.1 hall c hc
    · rcases List.mem_append.1 hc with hc | hc
      · obtain ⟨b, _, hb⟩ := List.mem_flatMap.1 hc
        exact hexPair_token b c hb
      · rw [List.mem_singleton.1 hc]
        decide
  · exact (Base64.encode_digits _ c hc).all (by decide)

/-- The browser takes the name as it is, and the value up to the attributes. -/
theorem browserCookie_pair {name : String} (hn : ∀ c ∈ name.toList, isTokenChar c = true)
    (rest : String) : browserCookie (name ++ "=" ++ rest) =
      some (name, String.ofList (Pieces.strip isOws ((rest.toList.splitOn ';').headD []))) := by
  have hlist : (name ++ "=" ++ rest).toList = (name.toList ++ ['=']) ++ rest.toList := by
    rw [String.toList_append, String.toList_append]
    rfl
  have hsep : ';' ∉ name.toList ++ ['='] := by
    intro hm
    rcases List.mem_append.1 hm with hm | hm
    · exact (isTokenChar_spec (hn _ hm)).2.2.1 rfl
    · cases List.mem_singleton.1 hm
  have hbare : Pieces.Bare isOws name.toList :=
    ⟨fun c hc => (isTokenChar_spec (hn c (List.mem_of_mem_head? hc))).1,
      fun c hc => (isTokenChar_spec (hn c (List.mem_of_mem_getLast? hc))).1⟩
  have hhead : ((name ++ "=" ++ rest).toList.splitOn ';').headD [] =
      name.toList ++ '=' :: (rest.toList.splitOn ';').headD [] := by
    rw [hlist, Pieces.splitOn_append hsep]
    cases hr : rest.toList.splitOn ';' with
    | nil => exact absurd hr (List.splitOn_ne_nil _ _)
    | cons first pieces =>
      rw [List.modifyHead_cons, List.headD_cons, List.headD_cons, List.append_assoc]
      rfl
  have heq : '=' ∉ name.toList := fun hm => (isTokenChar_spec (hn _ hm)).2.2.2 rfl
  rw [browserCookie, hhead, splitOnce_append String.toList_ofList heq, Option.map_some,
    String.toList_ofList, String.toList_ofList, hbare.strip_eq, String.ofList_toList]

/-- A value of cookie octets ends where the attributes begin. -/
theorem octets_head {value rest : String} (hv : value.toList.all isCookieOctet = true)
    (hr : Attributes rest) :
    Pieces.strip isOws (((value ++ rest).toList.splitOn ';').headD []) = value.toList := by
  have hspec (c) (hc : c ∈ value.toList) := isCookieOctet_spec (List.all_eq_true.1 hv c hc)
  have hsep : ';' ∉ value.toList := fun hm => (hspec _ hm).2.2 rfl
  have hbare : Pieces.Bare isOws value.toList :=
    ⟨fun c hc => (hspec c (List.mem_of_mem_head? hc)).1,
      fun c hc => (hspec c (List.mem_of_mem_getLast? hc)).1⟩
  have hhead : ((value ++ rest).toList.splitOn ';').headD [] = value.toList := by
    rw [String.toList_append, Pieces.splitOn_append hsep]
    rcases hr with rfl | hr
    · rw [String.toList_empty, List.splitOn_nil, List.modifyHead_cons, List.append_nil]
      rfl
    · cases hl : rest.toList with
      | nil => rw [hl] at hr; cases hr
      | cons x l =>
        rw [hl] at hr
        cases hr
        rw [List.splitOn_cons_eq_if_modifyHead, if_pos (by decide), List.modifyHead_cons,
          List.append_nil]
        rfl
  rw [hhead, hbare.strip_eq]

/-- The upstream gets the name that it gave, if that is a token. -/
theorem unwrap_wrappedName (id : Uuid) {name : String} (hn : name.toList.all isTokenChar = true)
    (value : String) : unwrapCookie id (wrappedName id name, value) = some (name, value) := by
  have hbounds (c) (hc : c ∈ name.toList) := isTokenChar_bounds (List.all_eq_true.1 hn c hc)
  have hbytes : Text.utf8 name = name.toList.map fun c => UInt8.ofNat c.toNat := by
    have hascii := Text.utf8_ascii (l := name.toList) fun c hc =>
      (hbounds c hc).2.trans (by decide : 127 < 128)
    rwa [String.ofList_toList] at hascii
  have hall : ∀ n, n < 127 → 33 ≤ n → isTokenChar (Char.ofNat n) = true →
      (UInt8.ofNat n ≤ 32 || 127 ≤ UInt8.ofNat n || UInt8.ofNat n == 59 ||
        UInt8.ofNat n == 61) = false := by decide +kernel
  have hnone : ((Text.utf8 name).any fun b => b ≤ 32 || 127 ≤ b || b == 59 || b == 61) =
      false := by
    rw [List.any_eq_false, hbytes]
    intro b hb
    obtain ⟨c, hc, rfl⟩ := List.mem_map.1 hb
    rw [Bool.not_eq_true]
    apply hall c.toNat (hbounds c hc).2 (hbounds c hc).1
    rw [Char.ofNat_toNat]
    exact List.all_eq_true.1 hn c hc
  rw [unwrapCookie, wrappedName, stripPrefix_append]
  simp only [Option.bind_eq_bind, Option.bind_some, String.toList_ofList, Base64.decode_encode,
    Text.fromUtf8_utf8, hnone, Bool.false_eq_true, if_false]

/-- Whether or not the browser sends the cookie, the upstream of the preview gets the same, or no
cookie at all. -/
def Unseen (id : Uuid) (cookie : String × String) : Prop :=
  ∀ (h : HeaderMap) (c : HeaderValue) (before after : List (String × String)),
    h.get COOKIE = some c → c.latin1 = cookieText (before ++ cookie :: after) →
      filteredRequestHeaders h id COOKIE = [] ∨
        ∀ h' : HeaderMap, (∀ name, name ≠ COOKIE → h' name = h name) →
          headerText h' COOKIE = cookieText (before ++ after) →
            filteredRequestHeaders h' id = filteredRequestHeaders h id

/-- Nothing is forwarded of a cookie whose name does not carry the prefix of the preview. -/
theorem unseen_of_foreign {id : Uuid} {cookie : String × String} (hc : Clean cookie)
    (hn : ¬ (cookiePrefix id).toList <+: cookie.1.toList) : Unseen id cookie := by
  intro h c before after hg hl
  cases hv : c.visible with
  | false =>
    left
    apply filtered_cookie_none
    rw [headerText_hidden, forwardedCookies_empty]
    intro v hget
    cases hg.symm.trans hget
    exact hv
  | true =>
    right
    intro h' hother htext
    have hnothing : (pairsOf (pairText cookie)).filterMap (unwrapCookie id) = [] := by
      rw [hc.pairsOf, List.filterMap_cons_none (unwrapCookie_foreign hn cookie.2),
        List.filterMap_nil]
    apply filtered_congr (hother CONNECTION (by decide))
    · intro name hname
      apply hother name
      rintro rfl
      exact hname (by decide)
    · rw [htext, headerText_visible hg hv, hl, forwardedCookies, forwardedCookies,
        cookiePairs_cookieText, cookiePairs_cookieText, List.flatMap_append,
        List.flatMap_append, List.flatMap_cons, List.filterMap_append, List.filterMap_append,
        List.filterMap_append, hnothing, List.nil_append]

theorem rewriteCookie_some {K : CookieLib κ} (hK : K.Lawful) {id : Uuid} {raw v : HeaderValue}
    (h : rewriteCookie K id raw = some v) : ∃ text cookie rest, raw.toStr = some text ∧
      K.parse text = some cookie ∧ Attributes rest ∧ v.visible = true ∧
        v.latin1 = wrappedName id (K.name cookie) ++ "=" ++ (K.value cookie ++ rest) := by
  simp only [rewriteCookie, Option.bind_eq_bind, Option.bind_eq_some_iff] at h
  obtain ⟨text, ht, cookie, hp, h⟩ := h
  split at h
  · cases h
  · obtain ⟨rest, hr, hrender⟩ := hK.render_pair
      (K.setSecure (K.unsetDomain (K.setName cookie (wrappedName id (K.name cookie)))) true)
    rw [hK.name_setSecure, hK.name_unsetDomain, hK.name_setName, hK.value_setSecure,
      hK.value_unsetDomain, hK.value_setName, String.append_assoc] at hrender
    obtain ⟨hv, hl⟩ := HeaderValue.fromStr_some h
    exact ⟨text, cookie, rest, ht, hp, hr, hv, hl.trans hrender⟩

/-- What the browser has of a cookie that the upstream set. -/
theorem browser_rewriteCookie {K : CookieLib κ} (hK : K.Lawful) {id : Uuid} {raw v : HeaderValue}
    (h : rewriteCookie K id raw = some v) (hb : browserCookie v.latin1 = some cookie) :
    Clean cookie ∧ (cookiePrefix id).toList <+: cookie.1.toList := by
  obtain ⟨text, c, rest, _, _, _, hv, hl⟩ := rewriteCookie_some hK h
  have htoken := wrappedName_token id (K.name c)
  rw [hl, browserCookie_pair htoken] at hb
  cases hb
  have hchars : ∀ x ∈ Pieces.strip isOws (((K.value c ++ rest).toList.splitOn ';').headD []),
      Plain x ∧ x ≠ ';' := by
    intro x hx
    have hpiece := Pieces.strip_subset _ _ hx
    cases hs : (K.value c ++ rest).toList.splitOn ';' with
    | nil => exact absurd hs (List.splitOn_ne_nil _ _)
    | cons first pieces =>
      rw [hs] at hpiece
      obtain ⟨hm, hne⟩ := Pieces.mem_piece (hs ▸ List.mem_cons_self ..) hpiece
      refine ⟨HeaderValue.visible_char hv ?_, hne⟩
      rw [hl, String.toList_append]
      exact List.mem_append_right _ hm
  constructor
  · refine ⟨?_, ?_, ?_⟩
    · intro x hx
      exact (isTokenChar_spec (htoken x hx)).2
    · rw [String.toList_ofList]
      exact fun hm => (hchars _ hm).2 rfl
    · rw [String.toList_ofList]
      intro x hx
      rw [isWhitespace_visible (hchars x (List.mem_of_mem_getLast? hx)).1]
      exact (Pieces.strip_bare isOws _).2 x hx
  · rw [wrappedName, String.toList_append]
    exact List.prefix_append _ _

theorem toStr_some {v : HeaderValue} (h : v.toStr = some text) :
    v.visible = true ∧ v.latin1 = text := by
  rw [HeaderValue.toStr] at h
  split at h
  · next hv => exact ⟨hv, Option.some.inj h⟩
  · cases h

/-- A cookie whose name is not reserved is passed on to the browser, under its other name. -/
theorem rewriteCookie_token {K : CookieLib κ} (hK : K.Lawful) (id : Uuid)
    {name value rest : String} {raw : HeaderValue} (hname : IsToken name)
    (hres : reserved name = false) (hvalue : value.toList.all isCookieOctet = true)
    (hrest : Attributes rest) (hraw : raw.toStr = some (name ++ "=" ++ value ++ rest)) :
    ∃ v, rewriteCookie K id raw = some v ∧
      browserCookie v.latin1 = some (wrappedName id name, value) := by
  obtain ⟨cookie, hp, hn, hval⟩ := hK.parse_pair name value rest hname hvalue hrest
  obtain ⟨hvis, hl⟩ := toStr_some hraw
  obtain ⟨v, hv, _, _⟩ := HeaderValue.fromStr_visible (hK.render_plain _ cookie
    (wrappedName id name) hp (fun x hx => HeaderValue.visible_char hvis (hl ▸ hx))
    fun x hx => .inl ⟨Nat.le_of_succ_le (isTokenChar_bounds (wrappedName_token id name x hx)).1,
      (isTokenChar_bounds (wrappedName_token id name x hx)).2⟩)
  have hrewrite : rewriteCookie K id raw = some v := by
    rw [rewriteCookie, hraw]
    simp only [Option.bind_eq_bind, Option.bind_some, hp, hn, hres, Bool.false_eq_true, if_false]
    exact hv
  refine ⟨v, hrewrite, ?_⟩
  obtain ⟨text, cookie', rest', ht, hp', hr, _, hlatin⟩ := rewriteCookie_some hK hrewrite
  cases ht.symm.trans hraw
  cases hp'.symm.trans hp
  rw [hlatin, hn, hval, browserCookie_pair (wrappedName_token id name), octets_head hvalue hr,
    String.ofList_toList]

/-- A cookie of the preview among those that the browser sends is among those that the upstream
gets. -/
theorem cookie_received {id : Uuid} {name value : String} {h : HeaderMap} {c : HeaderValue}
    {sent : List (String × String)} (hname : IsToken name)
    (hclean : Clean (wrappedName id name, value)) (hg : h.get COOKIE = some c)
    (hsent : c.latin1 = cookieText sent) (hmem : (wrappedName id name, value) ∈ sent)
    (hvis : c.visible = true) : ∃ w, filteredRequestHeaders h id COOKIE = [w] ∧
      (name, value) ∈ cookiePairs w.latin1 := by
  have hforwarded : (name, value) ∈ forwardedCookies id (headerText h COOKIE) := by
    rw [headerText_visible hg hvis, hsent, forwardedCookies, cookiePairs_cookieText]
    apply List.mem_filterMap.2
    refine ⟨_, List.mem_flatMap.2 ⟨_, hmem, ?_⟩, unwrap_wrappedName id hname.2 value⟩
    rw [hclean.pairsOf]
    exact List.mem_singleton_self _
  obtain ⟨w, hw, hpairs⟩ := filtered_cookie (List.ne_nil_of_mem hforwarded)
  exact ⟨w, hw, hpairs ▸ hforwarded⟩

theorem cookieName_clean (id : Uuid) {value : String}
    (hvalue : value.toList.all isCookieOctet = true) : Clean (cookieName id, value) := by
  have hspec (c) (hc : c ∈ value.toList) := isCookieOctet_spec (List.all_eq_true.1 hvalue c hc)
  refine ⟨?_, fun hm => (hspec _ hm).2.2 rfl,
    fun c hc => (hspec c (List.mem_of_mem_getLast? hc)).2.1⟩
  have hall : "__Host-rcpv-".toList.all isTokenChar = true := by decide
  intro c hc
  rw [cookieName, String.toList_append, Uuid.toList_simple] at hc
  rcases List.mem_append.1 hc with hc | hc
  · exact (isTokenChar_spec (List.all_eq_true.1 hall c hc)).2
  · obtain ⟨b, _, hb⟩ := List.mem_flatMap.1 hc
    exact (isTokenChar_spec (hexPair_token b c hb)).2

/-- A cookie with the texts of its attributes. -/
structure SimpleCookie where
  name : String
  value : String
  attributes : List (List Char)

/-- The attribute has this name. -/
def isAttribute (name : String) (text : List Char) : Bool :=
  name.toList.isPrefixOf ((text.dropWhile isOws).map Char.toLower)

/-- A cookie library that keeps the attributes as they are. -/
def simpleCookies : CookieLib SimpleCookie where
  parse text := (browserCookie text).bind fun p =>
    if p.1 = "" then none else some ⟨p.1, p.2, (text.toList.splitOn ';').tail⟩
  name := SimpleCookie.name
  value := SimpleCookie.value
  setName c name := { c with name }
  unsetDomain c := { c with attributes := c.attributes.filter fun a => !isAttribute "domain" a }
  setSecure c b :=
    let others := c.attributes.filter fun a => !isAttribute "secure" a
    { c with attributes := if b then others ++ [" Secure".toList] else others }
  render c := c.name ++ "=" ++ c.value ++ String.ofList (c.attributes.flatMap (';' :: ·))

theorem browserCookie_subset (h : browserCookie text = some p) :
    ∀ x ∈ p.2.toList, x ∈ text.toList := by
  rw [browserCookie, Option.map_eq_some_iff] at h
  obtain ⟨q, hq, rfl⟩ := h
  obtain ⟨hsplit, _⟩ := splitOnce_some hq
  rw [String.toList_ofList] at hsplit
  cases hs : text.toList.splitOn ';' with
  | nil => exact absurd hs (List.splitOn_ne_nil _ _)
  | cons first pieces =>
    rw [hs, List.headD_cons] at hsplit
    intro x hx
    rw [String.toList_ofList] at hx
    have hq2 := Pieces.strip_subset _ _ hx
    have hm : x ∈ first := by
      rw [hsplit]
      exact List.mem_append_right _ (List.mem_cons_of_mem _ hq2)
    exact (Pieces.mem_piece (hs ▸ List.mem_cons_self ..) hm).1

theorem simpleCookies_lawful : simpleCookies.Lawful where
  parse_pair name value rest hname hvalue hrest := by
    have hb := browserCookie_pair (List.all_eq_true.1 hname.2) (value ++ rest)
    rw [octets_head hvalue hrest, String.ofList_toList, ← String.append_assoc] at hb
    refine ⟨⟨name, value, ((name ++ "=" ++ value ++ rest).toList.splitOn ';').tail⟩, ?_, rfl, rfl⟩
    simp only [simpleCookies, hb, Option.bind_some]
    rw [if_neg hname.1]
  name_setName _ _ := rfl
  value_setName _ _ := rfl
  name_unsetDomain _ := rfl
  value_unsetDomain _ := rfl
  name_setSecure _ _ := rfl
  value_setSecure _ _ := rfl
  render_pair c := by
    refine ⟨String.ofList (c.attributes.flatMap (';' :: ·)), ?_, rfl⟩
    cases ha : c.attributes with
    | nil => exact .inl rfl
    | cons a rest =>
      right
      rw [String.toList_ofList]
      rfl
  render_plain text c name hp htext hname := by
    simp only [simpleCookies, Option.bind_eq_some_iff] at hp
    obtain ⟨p, hb, hp⟩ := hp
    split at hp
    · cases hp
    · cases hp
      simp only [simpleCookies, String.toList_append, String.toList_ofList, if_true]
      intro x hx
      rcases List.mem_append.1 hx with hx | hx
      · rcases List.mem_append.1 hx with hx | hx
        · rcases List.mem_append.1 hx with hx | hx
          · exact hname x hx
          · rw [List.mem_singleton.1 (show x ∈ ['='] from hx)]
            exact .inl (by decide)
        · exact htext x (browserCookie_subset hb x hx)
      · obtain ⟨a, ha, hx⟩ := List.mem_flatMap.1 hx
        rcases List.mem_cons.1 hx with rfl | hx
        · exact .inl (by decide)
        · rcases List.mem_append.1 ha with ha | ha
          · have hpiece := List.mem_of_mem_tail (List.mem_filter.1 (List.mem_filter.1 ha).1).1
            exact htext x (Pieces.mem_piece hpiece hx).1
          · rw [List.mem_singleton.1 ha] at hx
            have hall : " Secure".toList.all (fun y => 32 ≤ y.toNat && y.toNat < 127) = true := by
              decide
            have hx' := List.all_eq_true.1 hall x hx
            rw [Bool.and_eq_true, decide_eq_true_eq, decide_eq_true_eq] at hx'
            exact .inl hx'

/-- A cookie comes back to the upstream that set it, in a header of visible ASCII, and neither it
nor a credential of the gateway goes to another upstream. -/
theorem cookies_round_trip {K : CookieLib κ} (hK : K.Lawful) :
    (∀ (id : Uuid) (name value rest : String) (raw : HeaderValue), IsToken name →
      reserved name = false → value.toList.all isCookieOctet = true → Attributes rest →
        raw.toStr = some (name ++ "=" ++ value ++ rest) →
        ∃ v cookie, rewriteCookie K id raw = some v ∧ browserCookie v.latin1 = some cookie ∧
          ∀ (h : HeaderMap) (c : HeaderValue) (sent : List (String × String)),
            h.get COOKIE = some c → c.latin1 = cookieText sent → cookie ∈ sent →
            c.visible = true → ∃ w, filteredRequestHeaders h id COOKIE = [w] ∧
              (name, value) ∈ cookiePairs w.latin1) ∧
    (∀ (id other : Uuid) (raw v : HeaderValue) (cookie : String × String), other ≠ id →
      rewriteCookie K id raw = some v → browserCookie v.latin1 = some cookie →
        Unseen other cookie) ∧
    ∀ (id other : Uuid) (value : String), value.toList.all isCookieOctet = true →
      Unseen id (cookieName other, value) := by
  refine ⟨?_, ?_, ?_⟩
  · intro id name value rest raw hname hres hvalue hrest hraw
    obtain ⟨v, hv, hb⟩ := rewriteCookie_token hK id hname hres hvalue hrest hraw
    obtain ⟨hclean, _⟩ := browser_rewriteCookie hK hv hb
    exact ⟨v, _, hv, hb, fun h c sent hg hsent hmem hvis =>
      cookie_received hname hclean hg hsent hmem hvis⟩
  · intro id other raw v cookie hne hv hb
    obtain ⟨hclean, hprefix⟩ := browser_rewriteCookie hK hv hb
    exact unseen_of_foreign hclean fun h => hne (cookiePrefix_unique h hprefix)
  · exact fun id other value hvalue =>
      unseen_of_foreign (cookieName_clean other hvalue) (cookiePrefix_cookieName id other)

theorem pairText_plain {p : String × String} (hn : p.1.toList.all isTokenChar = true)
    (hv : p.2.toList.all isCookieOctet = true) : ∀ x ∈ pairText p, Plain x := by
  intro x hx
  rcases List.mem_append.1 hx with hx | hx
  · have ht := isTokenChar_bounds (List.all_eq_true.1 hn x hx)
    exact .inl ⟨Nat.le_of_succ_le ht.1, ht.2⟩
  · rcases List.mem_cons.1 hx with rfl | hx
    · exact .inl (by decide)
    · have ho := List.all_eq_true.1 hv x hx
      simp only [isCookieOctet, Bool.and_eq_true, decide_eq_true_eq] at ho
      exact .inl ⟨Nat.le_of_succ_le ho.1.1, ho.1.2⟩

theorem cookies_round_trip_app : ∃ c w : HeaderValue,
    c.latin1 = cookieText [("a", "b"), (wrappedName (.fill 1) "app", "1")] ∧
      filteredRequestHeaders (HeaderMap.empty.insert COOKIE c) (.fill 1) COOKIE = [w] ∧
      ("app", "1") ∈ cookiePairs w.latin1 := by
  have hname : IsToken "app" := ⟨by decide, by decide⟩
  have hres : reserved "app" = false := by decide
  have hvalue : "1".toList.all isCookieOctet = true := by decide
  have hraw : (HeaderValue.fromStatic "app=1; Path=/" (by decide)).toStr =
      some ("app" ++ "=" ++ "1" ++ "; Path=/") := by decide
  obtain ⟨v, cookie, hv, hb, hreceived⟩ := (cookies_round_trip simpleCookies_lawful).1 (.fill 1)
    "app" "1" "; Path=/" (.fromStatic "app=1; Path=/" (by decide)) hname hres hvalue
    (.inr (by decide)) hraw
  obtain ⟨v', hv', hb'⟩ := rewriteCookie_token simpleCookies_lawful (.fill 1) hname hres hvalue
    (.inr (by decide)) hraw
  cases hv.symm.trans hv'
  cases hb.symm.trans hb'
  have hplain : ∀ p ∈ [("a", "b"), (wrappedName (.fill 1) "app", "1")],
      ∀ x ∈ pairText p, Plain x := by
    rintro p hp
    simp only [List.mem_cons, List.not_mem_nil, or_false] at hp
    rcases hp with rfl | rfl
    · exact pairText_plain (by decide) (by decide)
    · exact pairText_plain (List.all_eq_true.2 (wrappedName_token _ _)) hvalue
  obtain ⟨c, _, hvis, hl⟩ := HeaderValue.fromStr_visible (cookieText_plain hplain)
  obtain ⟨w, hw, hm⟩ := hreceived (HeaderMap.empty.insert COOKIE c) c _
    ((congrArg List.head? (HeaderMap.insert_apply ..)).trans (by rw [if_pos rfl]; rfl)) hl
    (List.mem_cons_of_mem _ (List.mem_singleton_self _)) hvis
  exact ⟨c, w, hl, hw, hm⟩

/-- Beside a cookie that is not ASCII no cookie reaches the upstream. -/
theorem cookies_not_ascii : ∃ (id : Uuid) (raw v c : HeaderValue) (h : HeaderMap)
    (cookie : String × String) (sent : List (String × String)),
    raw.toStr = some "app=1" ∧ rewriteCookie simpleCookies id raw = some v ∧
      browserCookie v.latin1 = some cookie ∧ h COOKIE = [c] ∧ c.latin1 = cookieText sent ∧
      cookie ∈ sent ∧ filteredRequestHeaders h id COOKIE = [] := by
  have hname : IsToken "app" := ⟨by decide, by decide⟩
  have hvalue : "1".toList.all isCookieOctet = true := by decide
  have hraw : (HeaderValue.fromStatic "app=1" (by decide)).toStr =
      some ("app" ++ "=" ++ "1" ++ "") := by decide
  obtain ⟨v, hv, hb⟩ := rewriteCookie_token simpleCookies_lawful (.fill 1) hname (by decide)
    hvalue (.inl rfl) hraw
  let sent := [(wrappedName (.fill 1) "app", "1"), ("x", "é")]
  have htext : (cookieText sent).toList =
      pairText (wrappedName (.fill 1) "app", "1") ++ "; x=é".toList := by
    rw [toList_cookieText, List.map_cons, List.map_singleton, List.intercalate_cons_cons,
      List.intercalate_singleton, List.append_assoc]
    exact congrArg _ (by decide)
  have hbytes : ∀ x ∈ (cookieText sent).toList,
      x.toNat < 256 ∧ isValueByte (UInt8.ofNat x.toNat) = true := by
    have hplain : ∀ x ∈ pairText (wrappedName (.fill 1) "app", "1"), Plain x :=
      pairText_plain (List.all_eq_true.2 (wrappedName_token (.fill 1) "app")) hvalue
    have hall : ∀ n, n < 127 → 32 ≤ n ∨ n = 9 → isValueByte (UInt8.ofNat n) = true := by
      decide +kernel
    rw [htext]
    intro x hx
    rcases List.mem_append.1 hx with hx | hx
    · have hp : (32 ≤ x.toNat ∧ x.toNat < 127) ∨ x.toNat = 9 := hplain x hx
      exact ⟨by omega, hall x.toNat (by omega) (by omega)⟩
    · have hrest : "; x=é".toList.all (fun y =>
          y.toNat < 256 && isValueByte (UInt8.ofNat y.toNat)) = true := by decide
      have hx' := List.all_eq_true.1 hrest x hx
      rwa [Bool.and_eq_true, decide_eq_true_eq] at hx'
  obtain ⟨c, hl⟩ := HeaderValue.exists_latin1 hbytes
  have hhidden : c.visible = false := by
    rw [← Bool.not_eq_true]
    intro hvis
    have hmem : 'é' ∈ c.latin1.toList := by
      rw [hl, htext]
      exact List.mem_append_right _ (by decide)
    exact absurd (HeaderValue.visible_char hvis hmem) (by decide)
  have hcookie : HeaderMap.empty.insert COOKIE c COOKIE = [c] :=
    (HeaderMap.insert_apply ..).trans (if_pos rfl)
  refine ⟨.fill 1, _, v, c, HeaderMap.empty.insert COOKIE c, _, sent, hraw, hv, hb, hcookie, hl,
    List.mem_cons_self .., ?_⟩
  apply filtered_cookie_none
  rw [headerText_hidden, forwardedCookies_empty]
  intro v' hg
  cases (congrArg List.head? hcookie).symm.trans hg
  exact hhidden

end Preview
end RemoteCodex
