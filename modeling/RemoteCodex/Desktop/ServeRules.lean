import Mathlib.Data.List.Forall2
import RemoteCodex.Lib.Pieces
import RemoteCodex.Desktop.ServeJournal

namespace RemoteCodex
set_option autoImplicit true
namespace Desktop

abbrev Entries := List (String × Value)

theorem bind_ok {x : Except ε α} {f : α → Except ε β} :
    (x >>= f) = .ok b ↔ ∃ a, x = .ok a ∧ f a = .ok b := by
  cases x with
  | error e => exact ⟨nofun, fun ⟨_, h, _⟩ => nomatch h⟩
  | ok a => exact ⟨fun h => ⟨a, rfl, h⟩, fun ⟨_, h, hb⟩ => Except.ok.inj h ▸ hb⟩

theorem pure_ok {a b : α} : (pure a : Except ε α) = .ok b ↔ a = b :=
  ⟨Except.ok.inj, congrArg Except.ok⟩

theorem okOr_eq {x : Option α} : okOr text x = .ok a ↔ x = some a := by
  cases x with
  | none => exact ⟨nofun, nofun⟩
  | some b =>
    exact ⟨fun h => congrArg some (Except.ok.inj h), fun h => congrArg _ (Option.some.inj h)⟩

theorem asObject_eq {v : Value} : v.asObject = some o ↔ v = .object o := by
  cases v with
  | object entries => exact ⟨fun h => congrArg _ (Option.some.inj h), fun h => by cases h; rfl⟩
  | _ => exact ⟨nofun, nofun⟩

theorem asBool_eq {v : Value} : v.asBool = some b ↔ v = .bool b := by
  cases v with
  | bool c => exact ⟨fun h => congrArg _ (Option.some.inj h), fun h => by cases h; rfl⟩
  | _ => exact ⟨nofun, nofun⟩

theorem asStr_eq {v : Value} : v.asStr = some s ↔ v = .string s := by
  cases v with
  | string t => exact ⟨fun h => congrArg _ (Option.some.inj h), fun h => by cases h; rfl⟩
  | _ => exact ⟨nofun, nofun⟩

/-- The entry of a key is an object, if there is one. -/
theorem checkObject_ok : checkObject root key = .ok () ↔
    ∀ x, root.lookup key = some x → ∃ o, x = .object o := by
  unfold checkObject
  split
  · next h => exact iff_of_true rfl fun x hx => by rw [h] at hx; cases hx
  · next x h =>
    rw [h]
    split
    · next hx =>
      refine iff_of_true rfl fun y hy => ?_
      obtain ⟨o, ho⟩ := Option.isSome_iff_exists.1 hx
      cases hy
      exact ⟨o, asObject_eq.1 ho⟩
    · next hx =>
      refine iff_of_false nofun fun hall => hx ?_
      obtain ⟨o, rfl⟩ := hall x rfl
      rfl

theorem funnels_false (o : Entries) (enabled : Bool) :
    o.foldlM (fun enabled entry => do
      let v ← okOr "Tailscale AllowFunnel value has an invalid type" entry.2.asBool
      return enabled || v) enabled = Except.ok false ↔
    enabled = false ∧ ∀ e ∈ o, e.2 = .bool false := by
  induction o generalizing enabled with
  | nil => exact ⟨fun h => ⟨Except.ok.inj h, nofun⟩, fun h => congrArg _ h.1⟩
  | cons e o ih =>
    rw [List.foldlM_cons, bind_ok, List.forall_mem_cons]
    simp only [ih, bind_ok, okOr_eq, asBool_eq, pure_ok]
    constructor
    · rintro ⟨a, ⟨v, hv, ha⟩, rfl, hall⟩
      rw [Bool.or_eq_false_iff] at ha
      rw [ha.2] at hv
      exact ⟨ha.1, hv, hall⟩
    · rintro ⟨rfl, hv, hall⟩
      exact ⟨false, ⟨false, hv, rfl⟩, rfl, hall⟩

theorem allowFunnel_false : allowFunnel root = .ok false ↔
    ∀ x, root.lookup "AllowFunnel" = some x → ∃ o, x = .object o ∧ ∀ e ∈ o, e.2 = .bool false := by
  unfold allowFunnel
  split
  · next h => exact iff_of_true rfl fun x hx => by rw [h] at hx; cases hx
  · next x h =>
    simp only [bind_ok, okOr_eq, asObject_eq, h, Option.some.injEq, forall_eq']
    refine exists_congr fun o => and_congr_right fun _ => ?_
    rw [funnels_false]
    exact and_iff_right rfl

theorem foregroundOccupied_false : foregroundOccupied root = .ok false ↔
    ∀ x, root.lookup "Foreground" = some x → x = .object [] := by
  unfold foregroundOccupied
  split
  · next h => exact iff_of_true rfl fun x hx => by rw [h] at hx; cases hx
  · next x h =>
    simp only [bind_ok, okOr_eq, asObject_eq, h, Option.some.injEq, forall_eq']
    constructor
    · rintro ⟨sessions, rfl, hs⟩
      split at hs
      · rw [pure_ok, Bool.not_eq_false', List.isEmpty_iff] at hs
        rw [hs]
      · cases hs
    · rintro rfl
      exact ⟨[], rfl, rfl⟩

def entry443 (root : Entries) : Option Value :=
  ((root.lookup "TCP").bind Value.asObject).bind fun tcp => tcp.lookup "443"

theorem https_ok {o : Entries} {k : Bool → Except ServeError β} : (match o.lookup "HTTPS" with
      | some h => okOr "Tailscale TCP 443 HTTPS has an invalid type" h.asBool >>= k
      | none => Except.ok false >>= k) = .ok t ↔
    ∃ https, ((o.lookup "HTTPS" = none ∧ https = false) ∨ o.lookup "HTTPS" = some (.bool https)) ∧
      k https = .ok t := by
  split
  · next h heq => simp only [bind_ok, okOr_eq, asBool_eq, heq, reduceCtorEq, false_and, false_or,
      Option.some.injEq]
  · next heq =>
    simp only [heq, true_and, reduceCtorEq, or_false, exists_eq_left]
    rfl

theorem forward_ok {o : Entries} {k : Bool → Except ServeError β} :
    (match o.lookup "TCPForward" with
      | some f => ((okOr "Tailscale TCP 443 TCPForward has an invalid type" f.asStr).map
          fun _ => true) >>= k
      | none => Except.ok false >>= k) = .ok t ↔
    ∃ forward, ((o.lookup "TCPForward" = none ∧ forward = false) ∨
      ∃ s, o.lookup "TCPForward" = some (.string s) ∧ forward = true) ∧ k forward = .ok t := by
  split
  · next f heq =>
    rw [heq]
    cases f with
    | string s =>
      refine ⟨fun h => ⟨true, .inr ⟨s, rfl, rfl⟩, h⟩, ?_⟩
      rintro ⟨_, ⟨hn, -⟩ | ⟨_, -, rfl⟩, h⟩
      · cases hn
      · exact h
    | _ =>
      refine iff_of_false nofun ?_
      rintro ⟨_, ⟨hn, -⟩ | ⟨_, hs, -⟩, -⟩
      · cases hn
      · cases hs
  · next heq =>
    simp only [heq, true_and, reduceCtorEq, false_and, exists_false, or_false, exists_eq_left]
    rfl

theorem tcp443_some (h : entry443 root = some e) : tcp443 root = .ok t ↔
    ∃ o https forward, e = .object o ∧
      ((o.lookup "HTTPS" = none ∧ https = false) ∨ o.lookup "HTTPS" = some (.bool https)) ∧
      ((o.lookup "TCPForward" = none ∧ forward = false) ∨
        ∃ s, o.lookup "TCPForward" = some (.string s) ∧ forward = true) ∧
      t = (https || forward, forward) := by
  rw [entry443] at h
  rw [tcp443, h]
  simp only [bind_ok, okOr_eq, asObject_eq]
  constructor
  · rintro ⟨o, he, hk⟩
    obtain ⟨https, hh, hk⟩ := https_ok.1 hk
    obtain ⟨forward, hf, ht⟩ := forward_ok.1 hk
    exact ⟨o, https, forward, he, hh, hf, (pure_ok.1 ht).symm⟩
  · rintro ⟨o, https, forward, he, hh, hf, ht⟩
    exact ⟨o, he, https_ok.2 ⟨https, hh, forward_ok.2 ⟨forward, hf, pure_ok.2 ht.symm⟩⟩⟩

/-- An entry that neither serves HTTPS nor forwards. -/
def Hollow (o : Entries) : Prop :=
  (∀ h, o.lookup "HTTPS" = some h → h = .bool false) ∧ o.lookup "TCPForward" = none

theorem tcp443_unoccupied : (∃ forward, tcp443 root = .ok (false, forward)) ↔
    ∀ e, entry443 root = some e → ∃ o, e = .object o ∧ Hollow o := by
  cases h : entry443 root with
  | none =>
    refine iff_of_true ⟨false, ?_⟩ nofun
    rw [entry443] at h
    rw [tcp443, h]
  | some e =>
    simp only [tcp443_some h, Option.some.injEq, forall_eq', Prod.mk.injEq]
    constructor
    · rintro ⟨_, o, https, forward, he, hh, hf, hor, -⟩
      obtain ⟨rfl, rfl⟩ := Bool.or_eq_false_iff.1 hor.symm
      refine ⟨o, he, fun v hv => ?_, ?_⟩
      · rcases hh with ⟨hh, -⟩ | hh <;> rw [hh] at hv <;> cases hv
        rfl
      · rcases hf with ⟨hf, -⟩ | ⟨s, -, hf⟩
        · exact hf
        · cases hf
    · rintro ⟨o, he, hh, hf⟩
      refine ⟨false, o, false, false, he, ?_, .inl ⟨hf, rfl⟩, rfl, rfl⟩
      cases hl : o.lookup "HTTPS" with
      | none => exact .inl ⟨rfl, rfl⟩
      | some v => exact .inr (congrArg some (hh v hl))

theorem tcp443_serving (h : tcp443 root = .ok (true, false)) :
    ∃ o, entry443 root = some (.object o) ∧ o.lookup "HTTPS" = some (.bool true) ∧
      o.lookup "TCPForward" = none := by
  cases he : entry443 root with
  | none =>
    rw [entry443] at he
    rw [tcp443, he] at h
    cases h
  | some e =>
    obtain ⟨o, https, forward, rfl, hh, hf, ht⟩ := (tcp443_some he).1 h
    obtain ⟨hor, rfl⟩ := Prod.mk.inj ht
    refine ⟨o, rfl, ?_, ?_⟩
    · rw [Bool.or_false] at hor
      rcases hh with ⟨-, rfl⟩ | hh
      · cases hor
      · rw [hh, ← hor]
    · rcases hf with ⟨hf, -⟩ | ⟨s, -, hf⟩
      · exact hf
      · cases hf

/-- A key of a rule for port 443. -/
def on443 (host : String) : Bool := ":443".toList.isSuffixOf host.toList

theorem lookup_single {entries : List (String × α)} (hlen : entries.length = 1)
    (hx : entries.lookup key = some x) : entries = [(key, x)] := by
  obtain ⟨⟨key', x'⟩, rfl⟩ := List.length_eq_one_iff.1 hlen
  rw [List.lookup_cons] at hx
  split at hx
  · next heq =>
    cases hx
    rw [beq_iff_eq.1 heq]
  · cases hx

theorem webRule_some (h : webRule host rule = .ok (some (name, proxy))) :
    on443 host = true ∧ name = trimEndMatches ":443" host ∧ validDnsName name = true ∧
      ∃ ro, rule = .object ro ∧ ro.lookup "Handlers" =
        some (.object [("/", .object [("Proxy", .string proxy)])]) := by
  unfold webRule at h
  split at h
  · cases h
  next hport =>
  simp only at h
  split at h
  · cases h
  next hvalid =>
  simp only [bind_ok, okOr_eq, asObject_eq, Option.bind_eq_some_iff] at h
  obtain ⟨ro, rfl, handlers, ⟨_, hhandlers, rfl⟩, h⟩ := h
  split at h
  · cases h
  next hroot =>
  simp only [bind_ok, okOr_eq, asObject_eq, Option.bind_eq_some_iff] at h
  obtain ⟨root, ⟨_, hr, rfl⟩, h⟩ := h
  split at h
  · cases h
  next hproxy =>
  simp only [bind_ok, okOr_eq, asStr_eq, Option.bind_eq_some_iff, pure_ok] at h
  obtain ⟨p, ⟨_, hp, rfl⟩, h⟩ := h
  obtain ⟨rfl, rfl⟩ := Prod.mk.inj (Option.some.inj h)
  rw [not_or, not_not] at hroot hproxy
  refine ⟨not_not.1 hport, rfl, not_not.1 hvalid, ro, rfl, ?_⟩
  rw [hhandlers, lookup_single hroot.1 hr, lookup_single hproxy.1 hp]

theorem webRule_none : webRule host rule = .ok none ↔ on443 host = false := by
  unfold webRule
  split
  · next hport => exact iff_of_true rfl (Bool.eq_false_iff.2 hport)
  · next hport =>
    refine iff_of_false ?_ fun hf => hport (Bool.eq_false_iff.1 hf)
    simp only
    split
    · exact nofun
    simp only [bind_ok]
    rintro ⟨ro, -, handlers, -, h⟩
    split at h
    · cases h
    simp only [bind_ok] at h
    obtain ⟨root, -, h⟩ := h
    split at h
    · cases h
    simp only [bind_ok, pure_ok] at h
    obtain ⟨p, -, h⟩ := h
    cases h

/-- The rules that were read are those on port 443. -/
theorem webRules_read {web : Entries} (h : webRules web = .ok rules) :
    List.Forall₂ (fun e r => webRule e.1 e.2 = .ok (some r))
      (web.filter fun e => on443 e.1) rules := by
  induction web generalizing rules with
  | nil =>
    cases h
    exact .nil
  | cons e web ih =>
    obtain ⟨host, rule⟩ := e
    simp only [webRules, bind_ok, pure_ok] at h
    obtain ⟨r, hr, rules, hrules, rfl⟩ := h
    cases r with
    | none =>
      rw [List.filter_cons, webRule_none.1 hr]
      exact ih hrules
    | some r =>
      rw [List.filter_cons, (webRule_some hr).1]
      exact .cons hr (ih hrules)

theorem webRules_nil {web : Entries} :
    webRules web = .ok [] ↔ ∀ e ∈ web, on443 e.1 = false := by
  constructor
  · intro h e he
    have hnil := List.forall₂_nil_right_iff.1 (webRules_read h)
    exact Bool.eq_false_iff.2 (List.filter_eq_nil_iff.1 hnil e he)
  · intro h
    induction web with
    | nil => rfl
    | cons e web ih =>
      obtain ⟨he, hweb⟩ := List.forall_mem_cons.1 h
      obtain ⟨host, rule⟩ := e
      simp only [webRules, bind_ok, pure_ok]
      exact ⟨none, webRule_none.2 he, [], ih hweb, rfl⟩

def webOf (root : Entries) : Option Entries := (root.lookup "Web").bind Value.asObject

/-- What the sections of a status say about port 443. -/
structure Sections (root : Entries) (funnel foreground : Bool) (tcp : Bool × Bool) : Prop where
  objects : ∀ key ∈ ["TCP", "Web", "Foreground"], checkObject root key = .ok ()
  funnel : allowFunnel root = .ok funnel
  tcp : tcp443 root = .ok tcp
  foreground : foregroundOccupied root = .ok foreground

def unruled (funnel foreground : Bool) (tcp : Bool × Bool) : ObservedServe :=
  ⟨none, none, tcp.1 || foreground || funnel, funnel || tcp.2 || foreground⟩

/-- What is read of a status: its sections, and the one rule of the web section, if there is one. -/
theorem parseStatus_ok : parseStatus v = .ok o ↔ ∃ root funnel foreground tcp, v = .object root ∧
    Sections root funnel foreground tcp ∧
      ((∀ web, webOf root = some web → webRules web = .ok []) ∧ o = unruled funnel foreground tcp ∨
        ∃ web name proxy, webOf root = some web ∧ webRules web = .ok [(name, proxy)] ∧
          tcp.1 = true ∧ o = ⟨some name, some proxy, true, funnel || tcp.2 || foreground⟩) := by
  simp only [parseStatus, bind_ok, okOr_eq, asObject_eq]
  constructor
  · rintro ⟨root, rfl, _, htcp, _, hweb, _, hfore, funnel, hfunnel, tcp, h443, foreground,
      hforeground, h⟩
    have hobjects : ∀ key ∈ ["TCP", "Web", "Foreground"], checkObject root key = .ok () := by
      intro key hkey
      simp only [List.mem_cons, List.not_mem_nil, or_false] at hkey
      rcases hkey with rfl | rfl | rfl
      · exact htcp
      · exact hweb
      · exact hfore
    refine ⟨root, funnel, foreground, tcp, rfl, ⟨hobjects, hfunnel, h443, hforeground⟩, ?_⟩
    split at h
    · next hnone =>
      refine .inl ⟨fun web hw => ?_, (pure_ok.1 h).symm⟩
      rw [webOf, hnone] at hw
      cases hw
    · next web hsome =>
      simp only [bind_ok] at h
      obtain ⟨rules, hrules, h⟩ := h
      split at h
      · cases h
      next hmixed =>
      rw [not_or, Nat.not_lt] at hmixed
      split at h
      · next name proxy more =>
        have hmore : more = [] :=
          List.length_eq_zero_iff.1 (Nat.le_zero.1 (Nat.le_of_succ_le_succ hmixed.1))
        have h1 : tcp.1 = true := by
          by_contra hf
          exact hmixed.2 ⟨List.cons_ne_nil _ _, Bool.eq_false_iff.2 hf⟩
        rw [hmore] at hrules
        exact .inr ⟨web, name, proxy, hsome, hrules, h1, (pure_ok.1 h).symm⟩
      · refine .inl ⟨fun web' hw => ?_, (pure_ok.1 h).symm⟩
        rw [webOf, hsome] at hw
        cases hw
        exact hrules
  · rintro ⟨root, funnel, foreground, tcp, rfl, hs, h⟩
    refine ⟨root, rfl, (), hs.objects "TCP" (by decide), (), hs.objects "Web" (by decide), (),
      hs.objects "Foreground" (by decide), funnel, hs.funnel, tcp, hs.tcp, foreground,
      hs.foreground, ?_⟩
    rcases h with ⟨hrules, rfl⟩ | ⟨web, name, proxy, hweb, hrules, h1, rfl⟩
    · split
      · rfl
      · next web hw =>
        rw [bind_ok]
        exact ⟨[], hrules web hw, rfl⟩
    · rw [webOf] at hweb
      rw [hweb]
      simp only [bind_ok]
      refine ⟨_, hrules, ?_⟩
      rw [if_neg]
      · rfl
      · rw [h1]
        simp

/-- Nothing on port 443, but for an entry that neither serves HTTPS nor forwards. -/
structure Vacant (root : Entries) : Prop where
  tcp : ∀ x, root.lookup "TCP" = some x → ∃ o, x = .object o
  entry : ∀ e, entry443 root = some e → ∃ o, e = .object o ∧ Hollow o
  web : ∀ x, root.lookup "Web" = some x →
    ∃ web, x = .object web ∧ ∀ e ∈ web, on443 e.1 = false
  foreground : ∀ x, root.lookup "Foreground" = some x → x = .object []
  funnel : ∀ x, root.lookup "AllowFunnel" = some x →
    ∃ o, x = .object o ∧ ∀ e ∈ o, e.2 = .bool false

theorem webOf_eq {root : Entries} :
    webOf root = some web ↔ root.lookup "Web" = some (.object web) := by
  simp only [webOf, Option.bind_eq_some_iff, asObject_eq, exists_eq_right]

/-- What is classified as unused. -/
theorem absent_iff {v : Value} {receipt : Option ServeReceipt} :
    (∃ i, inspectionFrom v receipt = .ok i ∧ i.ownership = .absent) ↔
      ∃ root, v = .object root ∧ Vacant root := by
  constructor
  · rintro ⟨i, hi, habsent⟩
    obtain ⟨o, ho, rfl⟩ := inspectionFrom_ok hi
    rw [inspection_absent] at habsent
    obtain ⟨root, funnel, foreground, tcp, rfl, hs, ⟨hweb, rfl⟩ | ⟨_, _, _, -, -, -, rfl⟩⟩ :=
      parseStatus_ok.1 ho
    · simp only [unruled, Bool.or_eq_false_iff] at habsent
      obtain ⟨⟨htcp, rfl⟩, rfl⟩ := habsent
      refine ⟨root, rfl, ⟨checkObject_ok.1 (hs.objects "TCP" (by decide)), ?_, fun x hx => ?_,
        foregroundOccupied_false.1 hs.foreground, allowFunnel_false.1 hs.funnel⟩⟩
      · exact tcp443_unoccupied.1 ⟨tcp.2, by rw [← htcp]; exact hs.tcp⟩
      · obtain ⟨web, rfl⟩ := checkObject_ok.1 (hs.objects "Web" (by decide)) x hx
        exact ⟨web, rfl, webRules_nil.1 (hweb web (webOf_eq.2 hx))⟩
    · cases habsent
  · rintro ⟨root, rfl, hv⟩
    obtain ⟨forward, htcp⟩ := tcp443_unoccupied.2 hv.entry
    have hobjects : ∀ key ∈ ["TCP", "Web", "Foreground"], checkObject root key = .ok () := by
      intro key hkey
      simp only [List.mem_cons, List.not_mem_nil, or_false] at hkey
      rcases hkey with rfl | rfl | rfl
      · exact checkObject_ok.2 hv.tcp
      · exact checkObject_ok.2 fun x hx => (hv.web x hx).imp fun _ => And.left
      · exact checkObject_ok.2 fun x hx => ⟨[], hv.foreground x hx⟩
    have hs : Sections root false false (false, forward) :=
      ⟨hobjects, allowFunnel_false.2 hv.funnel, htcp, foregroundOccupied_false.2 hv.foreground⟩
    have hparse : parseStatus (.object root) = .ok (unruled false false (false, forward)) := by
      rw [parseStatus_ok]
      refine ⟨root, false, false, (false, forward), rfl, hs, .inl ⟨fun web hweb => ?_, rfl⟩⟩
      obtain ⟨_, heq, hno⟩ := hv.web _ (webOf_eq.1 hweb)
      cases heq
      exact webRules_nil.2 hno
    exact ⟨_, inspectionFrom_of hparse receipt, inspection_absent.2 rfl⟩

/-- Port 443 is not used at all. -/
structure Unused (root : Entries) : Prop where
  tcp : entry443 root = none
  web : ∀ web, root.lookup "Web" = some (.object web) → ∀ e ∈ web, ¬ ":443".toList <:+ e.1.toList
  foreground : ∀ sessions, root.lookup "Foreground" = some (.object sessions) → sessions = []
  funnel : ∀ o, root.lookup "AllowFunnel" = some (.object o) → ∀ e ∈ o, e.2 ≠ .bool true

theorem Vacant.unused {root : Entries} (h : Vacant root) (htcp : entry443 root = none) :
    Unused root := by
  refine ⟨htcp, fun web hweb e he hsuffix => ?_, fun sessions hs => ?_, fun o ho e he htrue => ?_⟩
  · obtain ⟨_, heq, hno⟩ := h.web _ hweb
    cases heq
    exact Bool.eq_false_iff.1 (hno e he) (List.isSuffixOf_iff_suffix.2 hsuffix)
  · cases h.foreground _ hs
    rfl
  · obtain ⟨_, heq, hno⟩ := h.funnel _ ho
    cases heq
    rw [hno e he] at htrue
    cases htrue

/-- What is classified as unused is so unless there is an entry of TCP 443 that neither serves HTTPS
nor forwards. -/
theorem absent_unused (v : Value) (receipt : Option ServeReceipt) :
    (∀ i, inspectionFrom v receipt = .ok i → i.ownership = .absent →
      ∃ root, v = .object root ∧ Unused root) ↔
    ¬ ∃ root o, v = .object root ∧ Vacant root ∧ entry443 root = some (.object o) := by
  constructor
  · rintro h ⟨root, o, rfl, hv, ho⟩
    obtain ⟨i, hi, habsent⟩ := absent_iff.2 ⟨root, rfl, hv⟩
    obtain ⟨_, heq, hunused⟩ := h i hi habsent
    cases heq
    rw [hunused.tcp] at ho
    cases ho
  · intro h i hi habsent
    obtain ⟨root, rfl, hv⟩ := absent_iff.1 ⟨i, hi, habsent⟩
    refine ⟨root, rfl, hv.unused ?_⟩
    by_contra hsome
    obtain ⟨e, he⟩ := Option.ne_none_iff_exists'.1 hsome
    obtain ⟨o, rfl, -⟩ := hv.entry e he
    exact h ⟨root, o, rfl, hv, he⟩

/-- An entry of another kind counts as none. -/
theorem absent_occupied : ¬ ∀ v receipt i, inspectionFrom v receipt = .ok i →
    i.ownership = .absent → ∃ root, v = .object root ∧ Unused root := by
  intro h
  obtain ⟨_, heq, hunused⟩ := h
    (.object [("TCP", .object [("443", .object [("HTTP", .bool true)])])]) none _ rfl rfl
  cases heq
  cases hunused.tcp

theorem dropCopies_spec (p : List Char) (n : Nat) (s : List Char) :
    ∃ k, s = (List.replicate k p).flatten ++ dropCopies p n s := by
  induction n generalizing s with
  | zero => exact ⟨0, rfl⟩
  | succ n ih =>
    rw [dropCopies]
    split
    · next hp =>
      obtain ⟨t, rfl⟩ := List.isPrefixOf_iff_prefix.1 hp
      obtain ⟨k, hk⟩ := ih t
      refine ⟨k + 1, ?_⟩
      rw [List.drop_left, List.replicate_succ, List.flatten_cons, List.append_assoc, ← hk]
    · exact ⟨0, rfl⟩

/-- Copies of the suffix are all that is taken away. -/
theorem trimEndMatches_spec (p s : String) :
    ∃ k, s.toList = (trimEndMatches p s).toList ++ (List.replicate k p.toList).flatten := by
  obtain ⟨k, hk⟩ := dropCopies_spec p.toList.reverse s.toList.reverse.length s.toList.reverse
  refine ⟨k, ?_⟩
  rw [trimEndMatches, String.toList_ofList]
  have hrev := congrArg List.reverse hk
  rw [List.reverse_reverse, List.reverse_append, List.reverse_flatten, List.map_replicate,
    List.reverse_reverse, List.reverse_replicate] at hrev
  exact hrev

theorem validDnsName_colon {name : String} (h : validDnsName name = true) : ':' ∉ name.toList := by
  unfold validDnsName at h
  split at h
  · cases h
  next p hp =>
  rw [Bool.and_eq_true, List.all_eq_true] at h
  unfold stripSuffix at hp
  split at hp
  · next hsuffix =>
    obtain ⟨t, ht⟩ := List.isSuffixOf_iff_suffix.1 hsuffix
    have hpt : p.toList = t := by
      rw [← Option.some.inj hp, String.toList_ofList, ← ht, List.length_append, Nat.add_sub_cancel,
        List.take_left]
    rw [← ht]
    intro hmem
    rcases List.mem_append.1 hmem with hmem | hmem
    · have hne : ':' ≠ '.' := by decide
      obtain ⟨piece, hpiece, hcolon⟩ := Pieces.exists_piece hmem hne
      have hlabel := h.2 piece (hpt ▸ hpiece)
      simp only [validLabel, Bool.and_eq_true, List.all_eq_true] at hlabel
      exact absurd (hlabel.1.1.2 _ hcolon) (by decide)
    · exact absurd hmem (by decide)
  · cases hp

/-- The name of a rule is its host, without the port. -/
theorem trimEndMatches_host {host : String} (hport : on443 host = true)
    (hvalid : validDnsName (trimEndMatches ":443" host) = true) :
    (trimEndMatches ":443" host).toList = host.toList.takeWhile (· != ':') := by
  obtain ⟨k, hk⟩ := trimEndMatches_spec ":443" host
  have hcolon := validDnsName_colon hvalid
  have hclear : ∀ c ∈ (trimEndMatches ":443" host).toList, (c != ':') = true := by
    intro c hc
    rw [bne_iff_ne]
    rintro rfl
    exact hcolon hc
  cases k with
  | zero =>
    rw [List.replicate_zero, List.flatten_nil, List.append_nil] at hk
    have hmem : ':' ∈ host.toList :=
      (List.isSuffixOf_iff_suffix.1 hport).subset (by decide)
    rw [hk] at hmem
    exact absurd hmem hcolon
  | succ k =>
    have hcons : (List.replicate (k + 1) ":443".toList).flatten =
        ':' :: (['4', '4', '3'] ++ (List.replicate k ":443".toList).flatten) := by
      rw [List.replicate_succ, List.flatten_cons]
      rfl
    rw [hk, hcons, List.takeWhile_append_of_pos hclear, List.takeWhile_cons_of_neg (by decide),
      List.append_nil]

/-- HTTPS 443 is one rule, of the host, and it only passes requests on to the agent. -/
structure Exclusive (root : Entries) (host : String) : Prop where
  tcp : ∃ o, entry443 root = some (.object o) ∧ o.lookup "HTTPS" = some (.bool true) ∧
    o.lookup "TCPForward" = none
  web : ∃ web rule, root.lookup "Web" = some (.object web) ∧
    web.filter (fun e => on443 e.1) = [(host, .object rule)] ∧
    rule.lookup "Handlers" = some (.object [("/", .object [("Proxy", .string BACKEND)])])
  foreground : ∀ sessions, root.lookup "Foreground" = some (.object sessions) → sessions = []
  funnel : ∀ o, root.lookup "AllowFunnel" = some (.object o) → ∀ e ∈ o, e.2 ≠ .bool true

/-- The receipt is that of the rule. -/
structure ServeReceipt.Matches (r : ServeReceipt) (host : String) : Prop where
  name : r.dnsName.toList = host.toList.takeWhile (· != ':')
  port : r.httpsPort = 443
  proxy : r.proxy = BACKEND
  origin : r.publicOrigin = "https://" ++ r.dnsName

/-- What is classified as owned. -/
theorem owned_exclusive (h : inspectionFrom v receipt = .ok i) (howned : i.ownership = .owned) :
    ∃ root host r, v = .object root ∧ receipt = some r ∧ Exclusive root host ∧ r.Matches host := by
  obtain ⟨o, ho, rfl⟩ := inspectionFrom_ok h
  obtain ⟨r, hr, hdns, hproxy, hfunnel, -, hport, hback, horigin⟩ := inspection_owned howned
  obtain ⟨root, funnel, foreground, tcp, rfl, hs, ⟨-, rfl⟩ | ⟨web, name, proxy, hweb, hrules, h1,
    rfl⟩⟩ := parseStatus_ok.1 ho
  · cases hdns
  · obtain rfl := Option.some.inj hdns
    obtain rfl := Option.some.inj hproxy
    simp only [Bool.or_eq_false_iff] at hfunnel
    obtain ⟨⟨rfl, h2⟩, rfl⟩ := hfunnel
    have htcp : tcp = (true, false) := Prod.ext h1 h2
    obtain ⟨⟨host, rule⟩, rest, hrule, hrest, hfilter⟩ :=
      List.forall₂_cons_right_iff.1 (webRules_read hrules)
    rw [List.forall₂_nil_right_iff.1 hrest] at hfilter
    obtain ⟨h443, hname, hvalid, ro, rfl, hhandlers⟩ := webRule_some hrule
    refine ⟨root, host, r, rfl, hr, ⟨tcp443_serving (htcp ▸ hs.tcp),
      ⟨web, ro, webOf_eq.1 hweb, hfilter, hhandlers⟩, fun sessions hsessions => ?_,
      fun o ho e he htrue => ?_⟩, ⟨?_, hport, hback, ?_⟩⟩
    · cases foregroundOccupied_false.1 hs.foreground _ hsessions
      rfl
    · obtain ⟨_, heq, hno⟩ := allowFunnel_false.1 hs.funnel _ ho
      cases heq
      rw [hno e he] at htrue
      cases htrue
    · rw [hname] at hvalid ⊢
      exact trimEndMatches_host h443 hvalid
    · rw [horigin, publicOrigin, if_pos hvalid]
      rfl

end Desktop
end RemoteCodex
