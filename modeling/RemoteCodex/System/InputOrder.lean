import RemoteCodex.Lib.Text
import RemoteCodex.Client.PasteGate
import RemoteCodex.Core.InputRuns
import RemoteCodex.Agent.Control

namespace RemoteCodex
set_option autoImplicit true
open Fallible Js Trace
namespace Client

def Sent.seq : Sent → Nat
  | .input m => m.inputSeq
  | .paste r => r.inputSeq

/-- What is checked before an input or a paste is sent. -/
inductive Sent.Fits : Sent → Prop where
  | utf8 (m : InputMessage) (hp : m.payload = .utf8 text) (hne : text ≠ [])
      (hmax : encodedLength text ≤ 8192) : Fits (.input m)
  | binary (m : InputMessage) (hp : m.payload = .binary base64) (hb : btoa binary = .ok base64)
      (hne : binary ≠ []) (hmax : binary.length ≤ 8192) : Fits (.input m)
  | paste (r : PasteRequest) (hr : validatePaste r.text = .ok bytes) : Fits (.paste r)

/-- The number of the last input, and what was sent until then. -/
def Holds (sent : List Sent) (n : Nat) (k : Keyboard) : Prop :=
  k.sent = sent ∧ k.inputs.sequence = n ∧ n ≤ 2 ^ 53 - 1

/-- A call counts at most one input, and sends nothing else than this one. -/
inductive Went (sent : List Sent) (n : Nat) (k : Keyboard) : Prop where
  | nothing (h : Holds sent n k)
  | counted (h : Holds sent (n + 1) k)
  | sent (x : Sent) (h : Holds (sent ++ [x]) (n + 1) k) (hseq : x.seq = n + 1) (hfits : x.Fits)

section Calls
variable {sent : List Sent} {n : Nat}

abbrev Keeps (sent : List Sent) (n : Nat) (p : Handler α) : Prop :=
  Triple (Holds sent n) p (fun _ => Holds sent n) (Holds sent n)

theorem bail_keeps (c : Prop) [Decidable c] (code : String) : Keeps sent n (bailIf c code) :=
  .bailIf (fun _ _ h => h) fun _ _ h => h

theorem findSession_keeps (id : Str) : Keeps sent n (Keyboard.findSession id) := by
  refine (Triple.get (Q := fun _ => Holds sent n) fun _ h => h).bind fun k => ?_
  split
  · exact .throw fun _ h => h
  · exact .pure fun _ h => h

theorem create_counts {q : InputSequencer} {maxBytes : Nat}
    (h : q.create s clientId connection payload inputId maxBytes = .ok (m, q')) :
    q.sequence < 2 ^ 53 - 1 ∧ q'.sequence = q.sequence + 1 ∧ m.inputSeq = q.sequence + 1 ∧
      m.payload = .utf8 payload ∧ payload ≠ [] ∧ encodedLength payload ≤ maxBytes := by
  unfold InputSequencer.create at h
  split at h
  · cases h
  split at h
  · cases h
  split at h
  · cases h
  split at h
  · cases h
  next hsize =>
  split at h
  · cases h
  split at h
  · cases h
  next hseq =>
    cases h
    rw [not_or, Nat.not_lt] at hsize
    rw [not_or, Nat.not_le] at hseq
    exact ⟨hseq.2, rfl, rfl, rfl, hsize⟩

/-- A message with the next number. -/
theorem createInput_counts (s : SessionInfo) (payload inputId : Str) (maxBytes : Nat) :
    Triple (Holds sent n) (Keyboard.createInput s payload inputId maxBytes)
      (fun m k => Holds sent (n + 1) k ∧ m.inputSeq = n + 1 ∧ m.payload = .utf8 payload ∧
        payload ≠ [] ∧ encodedLength payload ≤ maxBytes) (Holds sent n) := by
  refine (Triple.get (Q := fun a k => Holds sent n k ∧ Holds sent n a) fun _ h => ⟨h, h⟩).bind
    fun a => .given fun ha => ?_
  obtain ⟨hsent, rfl, hmax⟩ := ha
  refine (Triple.ofExcept (Q := fun created k => Holds sent a.inputs.sequence k ∧
    (a.inputs.sequence < 2 ^ 53 - 1 ∧ created.2.sequence = a.inputs.sequence + 1 ∧
      created.1.inputSeq = a.inputs.sequence + 1 ∧ created.1.payload = .utf8 payload ∧
      payload ≠ [] ∧ encodedLength payload ≤ maxBytes)) ?_ fun _ h => h).bind
    fun created => .given fun hc => ?_
  · rintro ⟨m, q⟩ k hcreated h
    exact ⟨h, create_counts hcreated⟩
  · obtain ⟨hlow, hnext, hm⟩ := hc
    exact Triple.bind (Q := fun _ => Holds sent (a.inputs.sequence + 1))
      (fun _ _ => ⟨hsent, hnext, by omega⟩) fun _ => .pure fun _ h => ⟨h, hm⟩

theorem send_went (ch : Channel) (m : InputMessage) (hseq : m.inputSeq = n + 1)
    (hfits : (Sent.input m).Fits) :
    Triple (Holds sent (n + 1)) (Keyboard.send ch m) (fun _ => Went sent n)
      (Holds sent (n + 1)) := by
  refine (Triple.get (Q := fun _ => Holds sent (n + 1)) fun _ h => h).bind fun a => ?_
  refine (bail_keeps _ _).bind fun _ => (bail_keeps _ _).bind fun _ => .modify ?_
  rintro k ⟨hsent, hn⟩
  exact .sent (.input m) ⟨congrArg (· ++ [Sent.input m]) hsent, hn⟩ hseq hfits

theorem orSettle_went (inputId : Str) {sending : Handler Unit}
    (h : Triple (Holds sent (n + 1)) sending (fun _ => Went sent n) (Holds sent (n + 1))) :
    Triple (Holds sent (n + 1)) (Keyboard.orSettle inputId sending) (fun _ => Went sent n)
      (Went sent n) := by
  have hsent : Triple (Holds sent (n + 1)) (attempt sending : Handler (Except String Unit))
      (fun r k => (r = .ok () → Went sent n k) ∧ ((∃ e, r = .error e) → Holds sent (n + 1) k))
      (Went sent n) :=
    .attempt (h.conseq (fun _ => id) (fun _ _ hw => ⟨fun _ => hw, nofun⟩)
      fun _ hh e => ⟨nofun, fun _ => hh⟩)
  refine hsent.bind fun r => ?_
  cases r with
  | ok _ => exact .pure fun _ hk => hk.1 rfl
  | error e =>
    refine (Triple.modify (Q := fun _ => Went sent n) ?_).bind fun _ => .throw fun _ hk => hk
    intro k hk
    exact .counted (hk.2 ⟨e, rfl⟩)

theorem went_of_keeps {p : Handler α} {Q : α → Keyboard → Prop}
    (h : Triple (Holds sent n) p Q (Holds sent n)) : Triple (Holds sent n) p Q (Went sent n) :=
  h.conseq (fun _ => id) (fun _ _ => id) fun _ hh => .nothing hh

theorem input_went (ch : Channel) (inputId id data : Str) :
    Triple (Holds sent n) (Keyboard.input ch inputId id data) (fun _ => Went sent n)
      (Went sent n) := by
  refine (Triple.get (Q := fun _ => Holds sent n) fun _ h => h).bind fun a => ?_
  refine (went_of_keeps (bail_keeps _ _)).bind fun _ => ?_
  refine (went_of_keeps (findSession_keeps id)).bind fun s => ?_
  refine (went_of_keeps (createInput_counts s data inputId 8192)).bind fun m => .given ?_
  rintro ⟨hseq, hp, hne, hmax⟩
  exact orSettle_went _ (send_went ch m hseq (.utf8 m hp hne hmax))

theorem encodedLength_replicate (l : Nat) : encodedLength (List.replicate l 0x78) = l := by
  match l with
  | 0 => rfl
  | 1 => rfl
  | l + 2 =>
    have ih := encodedLength_replicate (l + 1)
    rw [List.replicate_succ] at ih
    rw [List.replicate_succ, List.replicate_succ, encodedLength, if_neg (by decide),
      if_pos (by decide), ih, Nat.add_comm]

theorem binaryInput_went (ch : Channel) (inputId id binary : Str) :
    Triple (Holds sent n) (Keyboard.binaryInput ch inputId id binary) (fun _ => Went sent n)
      (Went sent n) := by
  refine (Triple.get (Q := fun _ => Holds sent n) fun _ h => h).bind fun a => ?_
  refine (went_of_keeps (bail_keeps _ _)).bind fun _ => ?_
  refine (went_of_keeps (findSession_keeps id)).bind fun s => ?_
  refine (went_of_keeps (createInput_counts s _ inputId 8192)).bind fun m => .given ?_
  rintro ⟨hseq, hp, hne, hmax⟩
  rw [encodedLength_replicate] at hmax
  refine orSettle_went _ ((Triple.ofExcept (Q := fun base64 k => Holds sent (n + 1) k ∧
    btoa binary = .ok base64) (fun _ _ hb h => ⟨h, hb⟩) fun _ h => h).bind fun base64 =>
    .given fun hb => send_went ch _ hseq (.binary _ rfl hb ?_ hmax))
  rintro rfl
  exact hne rfl

theorem paste_went (inputId id text : Str) (appendEnter : Bool) :
    Triple (Holds sent n) (Keyboard.paste inputId id text appendEnter) (fun _ => Went sent n)
      (Went sent n) := by
  refine (Triple.ofExcept (Q := fun bytes k => Holds sent n k ∧ validatePaste text = .ok bytes)
    (fun _ _ hv h => ⟨h, hv⟩) fun _ h => .nothing h).bind fun bytes => .given fun hv => ?_
  refine (went_of_keeps (findSession_keeps id)).bind fun s => ?_
  refine (Triple.get (Q := fun a k => Holds sent n k ∧ Holds sent n a) fun _ h => ⟨h, h⟩).bind
    fun a => .given fun ha => ?_
  refine (Triple.ofExcept (Q := fun _ => Holds sent n) (fun _ _ _ h => h)
    fun _ h => .nothing h).bind fun pastes => ?_
  refine Triple.bind (Q := fun _ => Holds sent n) (fun _ _ => ha) fun _ => ?_
  have hcreate : Triple (Holds sent n)
      (attempt (Keyboard.createInput s text inputId (256 * 1024)) :
        Handler (Except String InputMessage))
      (fun r k => (∀ m, r = .ok m → Holds sent (n + 1) k ∧ m.inputSeq = n + 1) ∧
        ((∃ e, r = .error e) → Holds sent n k)) (Went sent n) :=
    .attempt ((createInput_counts s text inputId _).conseq (fun _ h => h)
      (fun m k h => ⟨fun m' he => by cases he; exact ⟨h.1, h.2.1⟩, nofun⟩)
      fun _ h e => ⟨nofun, fun _ => h⟩)
  refine hcreate.bind fun r => ?_
  cases r with
  | error e =>
    refine (Triple.modify (Q := fun _ => Went sent n) ?_).bind fun _ => .throw fun _ h => h
    exact fun _ h => .nothing (h.2 ⟨e, rfl⟩)
  | ok m =>
    refine .modify fun k h => ?_
    obtain ⟨⟨hsent, hn⟩, hseq⟩ := h.1 m rfl
    exact .sent (.paste _) ⟨congrArg (· ++ [Sent.paste _]) hsent, hn⟩ hseq (.paste _ hv)

theorem Entry.run_went (x : Entry) (ch : Channel) (inputId : Str) (k : Keyboard)
    (h : Holds sent n k) : Went sent n (exec (x.run ch inputId) k).2 := by
  have hspec : Triple (Holds sent n) (x.run ch inputId) (fun _ => Went sent n) (Went sent n) := by
    cases x with
    | input id data => exact input_went ch inputId id data
    | binaryInput id binary => exact binaryInput_went ch inputId id binary
    | paste id text appendEnter => exact paste_went inputId id text appendEnter
  exact hspec.left h

end Calls

/-- What was sent has increasing numbers, of which the last was counted. -/
structure Numbered (k : Keyboard) : Prop where
  rising : k.sent.Pairwise fun x y => x.seq < y.seq
  counted : ∀ x ∈ k.sent, 0 < x.seq ∧ x.seq ≤ k.inputs.sequence ∧ x.Fits
  bounded : k.inputs.sequence ≤ 2 ^ 53 - 1

theorem Numbered.start : Numbered .start := ⟨.nil, nofun, by decide⟩

theorem Numbered.same (h : Numbered k) (hs : k'.sent = k.sent)
    (hn : k'.inputs.sequence = k.inputs.sequence) : Numbered k' := by
  obtain ⟨hrising, hcounted, hbounded⟩ := h
  rw [← hs, ← hn] at *
  exact ⟨hrising, hcounted, hbounded⟩

theorem Went.numbered (h : Numbered k) (hw : Went k.sent k.inputs.sequence k') : Numbered k' := by
  cases hw with
  | nothing hk => exact h.same hk.1 hk.2.1
  | counted hk =>
    obtain ⟨hsent, hn, hmax⟩ := hk
    refine ⟨hsent ▸ h.rising, fun x hx => ?_, hn ▸ hmax⟩
    rw [hsent] at hx
    obtain ⟨hpos, hle, hfits⟩ := h.counted x hx
    exact ⟨hpos, by omega, hfits⟩
  | sent y hk hseq hfits =>
    obtain ⟨hsent, hn, hmax⟩ := hk
    refine ⟨?_, fun x hx => ?_, hn ▸ hmax⟩
    · rw [hsent, List.pairwise_append]
      refine ⟨h.rising, List.pairwise_singleton _ _, fun x hx z hz => ?_⟩
      obtain rfl := List.mem_singleton.1 hz
      have hle := (h.counted x hx).2.1
      omega
    · rw [hsent] at hx
      rcases List.mem_append.1 hx with hx | hx
      · obtain ⟨hpos, hle, hxfits⟩ := h.counted x hx
        exact ⟨hpos, by omega, hxfits⟩
      · obtain rfl := List.mem_singleton.1 hx
        exact ⟨by omega, by omega, hfits⟩

theorem Numbered.turn (h : Numbered k) (ht : Turn k as k') : Numbered k' := by
  cases ht with
  | page es page =>
    unfold Keyboard.follow
    split
    · exact h.same rfl rfl
    split <;> exact h.same rfl rfl
  | reply s a r hs =>
    split
    · cases r with
      | accepted id | settled id => exact h.same rfl rfl
    · exact h
  | entry x ch inputId => exact Went.numbered h (x.run_went ch inputId k ⟨rfl, rfl, h.bounded⟩)
  | completed n f hf => exact h.same rfl rfl

theorem encodedLength_cons {u : UInt16} (h : ¬ (0xd800 ≤ u ∧ u < 0xdc00)) (rest : Str) :
    encodedLength (u :: rest) =
      (if u < 0x80 then 1 else if u < 0x800 then 2 else 3) + encodedLength rest := by
  cases rest with
  | nil => rfl
  | cons v rest => rw [encodedLength, if_neg fun hp => h ⟨hp.1, hp.2.1⟩]

theorem encodedLength_pair {u v : UInt16} (hu : 0xd800 ≤ u ∧ u < 0xdc00)
    (hv : 0xdc00 ≤ v ∧ v < 0xe000) (rest : Str) :
    encodedLength (u :: v :: rest) = 4 + encodedLength rest := by
  rw [encodedLength, if_pos ⟨hu.1, hu.2, hv⟩]

theorem utf8Size_eq (c : Char) :
    c.utf8Size = if c.toNat < 0x80 then 1 else if c.toNat < 0x800 then 2
      else if c.toNat < 0x10000 then 3 else 4 := by
  have hval : c.toNat = c.val.toNat := rfl
  unfold Char.utf8Size
  simp only [UInt32.le_iff_toNat_le, UInt32.toNat_ofNatLT, hval]
  split_ifs <;> omega

/-- A text is as long for `TextEncoder` as its bytes are. -/
theorem encodedLength_utf16 (s : List Char) :
    encodedLength (utf16 s) = (s.flatMap String.utf8EncodeChar).length := by
  induction s with
  | nil => rfl
  | cons c s ih =>
    rw [utf16, List.flatMap_cons, List.flatMap_cons, List.length_append,
      String.length_utf8EncodeChar, ← ih, utf8Size_eq]
    have hvalid : c.toNat < 0xd800 ∨ 0xdfff < c.toNat ∧ c.toNat < 0x110000 := c.valid
    by_cases hc : c.toNat < 0x10000
    · have hunit : (unit c).toNat = c.toNat := UInt16.toNat_ofNat_of_lt' hc
      rw [units, if_pos hc, if_pos hc, List.singleton_append, encodedLength_cons]
      · refine congrArg (· + _) ?_
        simp only [UInt16.lt_iff_toNat_lt, hunit, UInt16.reduceToNat]
      · rintro ⟨hlow, hhigh⟩
        simp only [UInt16.le_iff_toNat_le, UInt16.lt_iff_toNat_lt, hunit, UInt16.reduceToNat]
          at hlow hhigh
        omega
    · have hhigh : (UInt16.ofNat (0xd800 + (c.toNat - 0x10000) / 0x400)).toNat =
          0xd800 + (c.toNat - 0x10000) / 0x400 :=
        UInt16.toNat_ofNat_of_lt' (by simp only [UInt16.size]; omega)
      have hlow : (UInt16.ofNat (0xdc00 + (c.toNat - 0x10000) % 0x400)).toNat =
          0xdc00 + (c.toNat - 0x10000) % 0x400 :=
        UInt16.toNat_ofNat_of_lt' (by simp only [UInt16.size]; omega)
      rw [units, if_neg hc, List.cons_append, List.singleton_append, encodedLength_pair]
      · rw [if_neg (by omega), if_neg (by omega), if_neg hc]
        rfl
      · simp only [UInt16.le_iff_toNat_le, UInt16.lt_iff_toNat_lt, hhigh, UInt16.reduceToNat]
        omega
      · simp only [UInt16.le_iff_toNat_le, UInt16.lt_iff_toNat_lt, hlow, UInt16.reduceToNat]
        omega

theorem toList_loop (bytes : ByteArray) (i : Nat) (r : List UInt8) :
    ByteArray.toList.loop bytes i r = r.reverse ++ bytes.data.toList.drop i := by
  unfold ByteArray.toList.loop
  split
  · next hi =>
    have hi' : i < bytes.data.toList.length := hi
    have hget : bytes.get! i = bytes.data.toList[i] := getElem!_pos bytes.data i hi
    rw [toList_loop bytes (i + 1), List.reverse_cons, List.append_assoc, List.singleton_append,
      hget, List.drop_eq_getElem_cons hi']
  · next hi =>
    rw [List.drop_eq_nil_of_le (Nat.not_lt.1 hi), List.append_nil]
termination_by bytes.size - i

theorem toUTF8_toList (t : String) : t.toUTF8.toList = Text.utf8 t := by
  rw [ByteArray.toList, toList_loop]
  rfl

/-- The payload of a message that the agent has parsed. A surrogate alone is no text. -/
inductive Payload.Parsed : Payload → InputPayload → Prop where
  | utf8 (t : String) : Parsed (.utf8 (utf16 t.toList)) (.utf8 t)
  | binary (t : String) : Parsed (.binary (utf16 t.toList)) (.binary t)

/-- The decoder of the agent for binary inputs. -/
def standard (base64 : String) : Option (List UInt8) := Base64.decodeStandard base64.toList

def Sent.inputId : Sent → Str
  | .input m => m.inputId
  | .paste r => r.inputId

/-- What the message of an input or the request of a paste asks of the ledger of its session, under
the lease of a connection. -/
inductive Arrives (session connection : Uuid) (lease : Nat) (id : Uuid) :
    Sent → InputLedger.Op → Prop where
  | input (m : InputMessage) (hs : m.sessionId = str session.hyphenated) (hl : m.leaseEpoch = lease)
      (hi : m.inputId = str id.hyphenated) (hp : m.payload.Parsed p)
      (hd : p.bytes standard = some data) :
      Arrives session connection lease id (.input m)
        (.accept connection lease id m.inputSeq data.length)
  | paste (r : PasteRequest) (hs : r.sessionId = str session.hyphenated) (hl : r.leaseEpoch = lease)
      (hc : r.connectionId = str connection.hyphenated) (hi : r.inputId = str id.hyphenated)
      (t : String) (ht : r.text = utf16 t.toList) :
      Arrives session connection lease id (.paste r)
        (.acceptPaste connection lease id r.inputSeq
          (Session.replaceLf (Session.replaceCrLf (Text.utf8 t))).length)

theorem encodedLength_pos {text : Str} (h : text ≠ []) : 0 < encodedLength text := by
  unfold encodedLength
  split
  · exact absurd rfl h
  · split_ifs <;> decide
  · split_ifs <;> omega

/-- A byte below 128 is a character of the text. -/
theorem mem_utf8 {s : List Char} {b : UInt8} (h : b ∈ s.flatMap String.utf8EncodeChar)
    (hb : b.toNat < 128) : ∃ c ∈ s, c.toNat = b.toNat := by
  obtain ⟨c, hc, hbc⟩ := List.mem_flatMap.1 h
  refine ⟨c, hc, ?_⟩
  have hval : c.toNat = c.val.toNat := rfl
  unfold String.utf8EncodeChar at hbc
  simp only at hbc
  split_ifs at hbc with h1 h2 h3 <;>
    simp only [List.mem_cons, List.not_mem_nil, or_false] at hbc
  · rw [hbc, hval, UInt8.toNat_ofNat_of_lt' (by simp only [UInt8.size]; omega)]
  · rcases hbc with rfl | rfl <;>
      rw [UInt8.toNat_ofNat_of_lt' (by simp only [UInt8.size]; omega)] at hb <;> omega
  · rcases hbc with rfl | rfl | rfl <;>
      rw [UInt8.toNat_ofNat_of_lt' (by simp only [UInt8.size]; omega)] at hb <;> omega
  · rcases hbc with rfl | rfl | rfl | rfl <;>
      rw [UInt8.toNat_ofNat_of_lt' (by simp only [UInt8.size]; omega)] at hb <;> omega

theorem utf8_flatMap (t : String) : Text.utf8 t = t.toList.flatMap String.utf8EncodeChar := by
  conv_lhs => rw [← String.ofList_toList (s := t), Text.utf8, String.toByteArray_ofList]
  rw [List.utf8Encode, List.toList_data_toByteArray]

theorem utf8_length (t : String) : (Text.utf8 t).length = encodedLength (utf16 t.toList) := by
  rw [encodedLength_utf16, utf8_flatMap]

/-- What is checked of a paste is what the agent checks. -/
theorem pasteAllowed_of_valid {t : String} (h : validatePaste (utf16 t.toList) = .ok bytes) :
    Session.pasteAllowed (Text.utf8 t) = true := by
  unfold validatePaste at h
  split at h
  · cases h
  next hne =>
  split at h
  · cases h
  next hcontrol =>
  simp only at h
  split at h
  · cases h
  next hmax =>
  rw [not_or] at hne
  have hlen := utf8_length t
  have hpos := encodedLength_pos hne.1
  rw [MAX_PASTE_BYTES] at hmax
  rw [Session.pasteAllowed, Bool.and_eq_true, Bool.and_eq_true]
  refine ⟨⟨?_, decide_eq_true (by rw [MAX_PASTE]; omega)⟩, ?_⟩
  · rw [Bool.not_eq_true', List.isEmpty_eq_false_iff, ← List.length_pos_iff]
    omega
  · rw [Bool.not_eq_true', List.any_eq_false]
    intro b hb hbad
    rw [utf8_flatMap] at hb
    have hlow : b.toNat < 128 := by
      simp only [Bool.or_eq_true, Bool.and_eq_true, decide_eq_true_eq, beq_iff_eq,
        UInt8.lt_iff_toNat_lt, ← UInt8.toNat_inj, UInt8.reduceToNat] at hbad
      omega
    obtain ⟨c, hc, hcb⟩ := mem_utf8 hb hlow
    have hunit : (unit c).toNat = b.toNat := (unit_toNat_ascii (by omega)).trans hcb
    have hmem : unit c ∈ utf16 t.toList :=
      List.mem_flatMap.2 ⟨c, hc, by rw [units, if_pos (by omega)]; exact List.mem_singleton_self _⟩
    have hzero : unit c ≠ 0 := fun he => hne.2 (he ▸ hmem)
    have hclean : ¬ pasteControl (unit c) = true :=
      fun hp => hcontrol (List.any_eq_true.2 ⟨_, hmem, hp⟩)
    unfold pasteControl at hclean
    simp only [Bool.or_eq_true, Bool.and_eq_true, Bool.not_eq_true', Bool.or_eq_false_iff,
      decide_eq_true_eq, beq_iff_eq, beq_eq_false_iff_ne, ne_eq, ← UInt16.toNat_inj,
      ← UInt8.toNat_inj, UInt8.lt_iff_toNat_lt, UInt16.le_iff_toNat_le, UInt8.reduceToNat,
      UInt16.reduceToNat, hunit] at hclean hbad hzero
    omega

theorem replaceCrLf_length (text : List UInt8) (h : text ≠ []) :
    0 < (Session.replaceCrLf text).length ∧
      (Session.replaceCrLf text).length ≤ text.length := by
  induction text using Session.replaceCrLf.induct with
  | case1 rest ih =>
    rw [Session.replaceCrLf, List.length_cons, List.length_cons, List.length_cons]
    rcases eq_or_ne rest [] with rfl | hr
    · decide
    · have := ih hr
      omega
  | case2 b rest hno ih =>
    rw [Session.replaceCrLf, List.length_cons, List.length_cons]
    rcases eq_or_ne rest [] with rfl | hr
    · simp [Session.replaceCrLf]
    · have := ih hr
      omega
    exact hno
  | case3 => exact absurd rfl h

theorem ascii_padded (bytes : List UInt8) (n : Nat) :
    Ascii ((Base64.encode bytes).map Base64.standard ++ List.replicate n '=') := by
  intro c hc
  rcases List.mem_append.1 hc with hc | hc
  · obtain ⟨d, hd, rfl⟩ := List.mem_map.1 hc
    have hall := (Base64.encode_digits bytes d hd).all
      (p := fun c => (Base64.standard c).toNat < 128) (by decide)
    exact of_decide_eq_true hall
  · rw [(List.mem_replicate.1 hc).2]
    decide

/-- The agent reads the bytes of a binary input. -/
theorem standard_btoa {t : String} (h : btoa binary = .ok (utf16 t.toList)) :
    standard t = some (binary.map UInt16.toUInt8) := by
  unfold btoa at h
  split at h
  · cases h
  simp only [Except.ok.injEq] at h
  have ht := utf16_eq_units (ascii_padded (binary.map UInt16.toUInt8) _) h.symm
  rw [standard, ht]
  exact Base64.decodeStandard_encode _

/-- An input that is sent is decoded, and within the bounds of the agent. -/
theorem Sent.Fits.decoded (h : (Sent.input m).Fits) (hp : m.payload.Parsed p) :
    ∃ data, p.bytes standard = some data ∧ 0 < data.length ∧ data.length ≤ MAX_INPUT := by
  cases h with
  | utf8 _ htext hne hmax =>
    rw [htext] at hp
    cases hp with
    | utf8 t =>
      refine ⟨_, congrArg some (toUTF8_toList t), ?_⟩
      rw [utf8_length]
      exact ⟨encodedLength_pos hne, hmax⟩
  | binary _ hbase hb hne hmax =>
    rw [hbase] at hp
    cases hp with
    | binary t =>
      refine ⟨_, standard_btoa hb, ?_⟩
      rw [List.length_map]
      exact ⟨List.length_pos_iff.2 hne, hmax⟩

/-- What comes to the ledger of a session: the message that was sent at a place, or the outcome of
an input. -/
inductive Coming where
  | arrival (place : Nat) (op : InputLedger.Op)
  | finish (id : Uuid) (status : String)

def Coming.op : Coming → InputLedger.Op
  | .arrival _ op => op
  | .finish id status => .finish id status

/-- The ledger after all that has come. -/
def ledger (l : InputLedger) (cs : List Coming) : InputLedger :=
  cs.foldl (fun l c => (l.perform c.op).2) l

section Ids
variable {id id' : Uuid}

theorem mem_evict {outcomes : AList fun _ : Uuid => String}
    (h : id ∈ (InputLedger.evict limit ids outcomes).2) : id ∈ outcomes := by
  induction ids generalizing outcomes with
  | nil => exact h
  | cons x ids ih =>
    unfold InputLedger.evict at h
    split at h
    · exact (AList.mem_erase.1 (ih h)).2
    · exact h

theorem mem_record {l : InputLedger}
    (h : id' ∈ (l.record connection lease id seq).outcomes) : id' = id ∨ id' ∈ l.outcomes :=
  (AList.mem_insert _).1 (mem_evict h)

theorem mem_finish {l : InputLedger} (h : id' ∈ (l.finish id status).outcomes) :
    id' ∈ l.outcomes := by
  unfold InputLedger.finish at h
  split at h
  · exact AList.mem_replace.1 h
  · exact h

end Ids

/-- Known, or overtaken. -/
def Stale (l : InputLedger) (key : Uuid × Nat) (id : Uuid) (seq : Nat) : Prop :=
  id ∈ l.outcomes ∨ ∃ s, l.highest.lookup key = some s ∧ seq ≤ s

section Arrivals
variable {session connection : Uuid} {lease : Nat} {id : Uuid}

theorem acceptLimit_within (l : InputLedger) {max : Nat} (hb : 0 < bytes) (hmax : bytes ≤ max)
    (hseq : 0 < seq) (hjs : seq ≤ MAX_JS_INTEGER) :
    (Stale l (connection, lease) id seq ∧
      l.acceptLimit connection lease id seq bytes max = (.error .duplicateInput, l)) ∨
    (¬ Stale l (connection, lease) id seq ∧
      l.acceptLimit connection lease id seq bytes max =
        (.ok (), l.record connection lease id seq)) := by
  have hstale : ((l.outcomes.lookup id).isSome ∨
      (l.highest.lookup (connection, lease)).any (fun s => decide (seq ≤ s))) ↔
      Stale l (connection, lease) id seq := by
    simp only [Stale, AList.lookup_isSome, Option.any_eq_true, decide_eq_true_eq]
  unfold InputLedger.acceptLimit
  rw [if_neg (by omega)]
  by_cases h : Stale l (connection, lease) id seq
  · exact .inl ⟨h, if_pos (hstale.2 h)⟩
  · exact .inr ⟨h, if_neg fun hc => h (hstale.1 hc)⟩

theorem Arrives.inputId (h : Arrives session connection lease id x op) :
    x.inputId = str id.hyphenated := by
  cases h with
  | input m hs hl hi => exact hi
  | paste r hs hl hc hi => exact hi

/-- The checks of sizes and numbers always pass. -/
theorem Arrives.perform (h : Arrives session connection lease id x op) (hk : Numbered k)
    (hx : x ∈ k.sent) (l : InputLedger) :
    (Stale l (connection, lease) id x.seq ∧ l.perform op = (.error .duplicateInput, l)) ∨
    (¬ Stale l (connection, lease) id x.seq ∧
      l.perform op = (.ok (), l.record connection lease id x.seq)) := by
  obtain ⟨hpos, hle, hfits⟩ := hk.counted x hx
  have hjs : x.seq ≤ MAX_JS_INTEGER := hle.trans hk.bounded
  cases h with
  | input m hs hl hi hp hd =>
    obtain ⟨data, hdata, hlen, hmax⟩ := hfits.decoded hp
    obtain rfl := Option.some.inj (hd.symm.trans hdata)
    exact acceptLimit_within l hlen hmax hpos hjs
  | paste r hs hl hc hi t ht =>
    cases hfits with
    | paste _ hr =>
      rw [ht] at hr
      have hallowed := pasteAllowed_of_valid hr
      simp only [Session.pasteAllowed, Bool.and_eq_true, Bool.not_eq_true',
        List.isEmpty_eq_false_iff, decide_eq_true_eq] at hallowed
      obtain ⟨hlen, hmax⟩ := replaceCrLf_length (Text.utf8 t) hallowed.1.1
      rw [← List.length_map (f := fun b => if b = 10 then (13 : UInt8) else b)] at hlen hmax
      exact acceptLimit_within l hlen (hmax.trans hallowed.1.2) hpos hjs

/-- The ledger has the number of the last one sent of those that have come, and no other ids. -/
structure Recorded (connection : Uuid) (lease : Nat) (sent : List Sent) (l l' : InputLedger)
    (cs : List Coming) : Prop where
  highest : ∀ seq, (∃ s, l'.highest.lookup (connection, lease) = some s ∧ seq ≤ s) ↔
    ∃ place op x, .arrival place op ∈ cs ∧ sent[place]? = some x ∧ seq ≤ x.seq
  ids : ∀ id ∈ l'.outcomes, id ∈ l.outcomes ∨
    ∃ place op x, .arrival place op ∈ cs ∧ sent[place]? = some x ∧ x.inputId = str id.hyphenated

variable {l : InputLedger} {k : Keyboard}

theorem Recorded.nil (hfresh : l.highest.lookup (connection, lease) = none) :
    Recorded connection lease sent l l [] := by
  refine ⟨fun seq => iff_of_false ?_ nofun, fun id h => .inl h⟩
  rintro ⟨s, hs, -⟩
  rw [hfresh] at hs
  cases hs

theorem Recorded.finish (h : Recorded connection lease sent l l' cs) (id : Uuid) (status : String) :
    Recorded connection lease sent l (l'.finish id status) (cs ++ [.finish id status]) := by
  have hmem {place : Nat} {op : InputLedger.Op} :
      .arrival place op ∈ cs ++ [Coming.finish id status] ↔ .arrival place op ∈ cs := by
    rw [List.mem_append, List.mem_singleton, or_iff_left nofun]
  refine ⟨fun seq => ?_, fun id hid => ?_⟩
  · rw [InputLedger.finish_highest, h.highest]
    simp only [hmem]
  · simp only [hmem]
    exact h.ids id (mem_finish hid)

theorem Numbered.le_iff {i j : Nat} {x y : Sent} (hk : Numbered k) (hx : k.sent[i]? = some x)
    (hy : k.sent[j]? = some y) : x.seq ≤ y.seq ↔ i ≤ j := by
  obtain ⟨hi, rfl⟩ := List.getElem?_eq_some_iff.1 hx
  obtain ⟨hj, rfl⟩ := List.getElem?_eq_some_iff.1 hy
  have hrising := List.pairwise_iff_getElem.1 hk.rising
  rcases Nat.lt_trichotomy i j with h | rfl | h
  · exact iff_of_true (Nat.le_of_lt (hrising i j hi hj h)) (Nat.le_of_lt h)
  · exact iff_of_true (Nat.le_refl _) (Nat.le_refl _)
  · exact iff_of_false (Nat.not_le_of_lt (hrising j i hj hi h)) (Nat.not_le_of_lt h)

/-- A message that is not the one of a place has another id. -/
theorem place_eq {sent : List Sent} {i j : Nat} {x y : Sent}
    (hids : sent.Pairwise fun x y => x.inputId ≠ y.inputId) (hx : sent[i]? = some x)
    (hy : sent[j]? = some y) (h : x.inputId = y.inputId) : i = j := by
  obtain ⟨hi, rfl⟩ := List.getElem?_eq_some_iff.1 hx
  obtain ⟨hj, rfl⟩ := List.getElem?_eq_some_iff.1 hy
  have hdistinct := List.pairwise_iff_getElem.1 hids
  rcases Nat.lt_trichotomy i j with hlt | he | hlt
  · exact absurd h (hdistinct i j hi hj hlt)
  · exact he
  · exact absurd h.symm (hdistinct j i hj hi hlt)

/-- The ledger refuses what has come before, or what one that was sent later has overtaken. -/
theorem Recorded.stale (h : Recorded connection lease k.sent l l' cs) (hk : Numbered k)
    (hids : k.sent.Pairwise fun x y => x.inputId ≠ y.inputId)
    (hnew : ∀ x ∈ k.sent, ∀ id, x.inputId = str id.hyphenated → id ∉ l.outcomes)
    (hx : k.sent[place]? = some x) (hid : x.inputId = str id.hyphenated) :
    Stale l' (connection, lease) id x.seq ↔
      ∃ place' op y, .arrival place' op ∈ cs ∧ k.sent[place']? = some y ∧ place ≤ place' := by
  constructor
  · rintro (hmem | hseq)
    · rcases h.ids id hmem with hold | ⟨place', op, y, hc, hy, hyid⟩
      · exact absurd hold (hnew x (List.mem_of_getElem? hx) id hid)
      · exact ⟨place', op, y, hc, hy, (place_eq hids hx hy (hid.trans hyid.symm)).le⟩
    · obtain ⟨place', op, y, hc, hy, hle⟩ := (h.highest x.seq).1 hseq
      exact ⟨place', op, y, hc, hy, (hk.le_iff hx hy).1 hle⟩
  · rintro ⟨place', op, y, hc, hy, hle⟩
    exact .inr ((h.highest x.seq).2 ⟨place', op, y, hc, hy, (hk.le_iff hx hy).2 hle⟩)

theorem Recorded.arrival (h : Recorded connection lease k.sent l l' cs) (hk : Numbered k)
    (hids : k.sent.Pairwise fun x y => x.inputId ≠ y.inputId)
    (hnew : ∀ x ∈ k.sent, ∀ id, x.inputId = str id.hyphenated → id ∉ l.outcomes)
    (hx : k.sent[place]? = some x) (ha : Arrives session connection lease id x op) :
    Recorded connection lease k.sent l (l'.perform op).2 (cs ++ [.arrival place op]) := by
  have hlast : .arrival place op ∈ cs ++ [Coming.arrival place op] :=
    List.mem_append_right _ (List.mem_singleton_self _)
  have hstale := h.stale hk hids hnew hx ha.inputId
  rcases ha.perform hk (List.mem_of_getElem? hx) l' with ⟨hs, hp⟩ | ⟨hs, hp⟩
  · rw [hp]
    refine ⟨fun seq => (h.highest seq).trans ⟨?_, ?_⟩, fun id hid => ?_⟩
    · rintro ⟨place', op', y, hc, hy⟩
      exact ⟨place', op', y, List.mem_append_left _ hc, hy⟩
    · rintro ⟨place', op', y, hc, hy, hle⟩
      rcases List.mem_append.1 hc with hc | hc
      · exact ⟨place', op', y, hc, hy, hle⟩
      · cases List.mem_singleton.1 hc
        obtain rfl := Option.some.inj (hx.symm.trans hy)
        obtain ⟨later, op', z, hz, hzs, hplace⟩ := hstale.1 hs
        exact ⟨later, op', z, hz, hzs, hle.trans ((hk.le_iff hx hzs).2 hplace)⟩
    · rcases h.ids id hid with hold | ⟨place', op', y, hc, hy⟩
      · exact .inl hold
      · exact .inr ⟨place', op', y, List.mem_append_left _ hc, hy⟩
  · rw [hp]
    refine ⟨fun seq => ?_, fun id' hid' => ?_⟩
    · rw [InputLedger.lookup_record, if_pos rfl]
      constructor
      · rintro ⟨s, hs, hle⟩
        exact ⟨place, op, x, hlast, hx, hle.trans_eq (Option.some.inj hs).symm⟩
      · rintro ⟨place', op', y, hc, hy, hle⟩
        refine ⟨x.seq, rfl, hle.trans ?_⟩
        rcases List.mem_append.1 hc with hc | hc
        · by_contra hlt
          have hplace := (hk.le_iff hx hy).1 (Nat.le_of_not_le hlt)
          exact hs (hstale.2 ⟨place', op', y, hc, hy, hplace⟩)
        · cases List.mem_singleton.1 hc
          rw [Option.some.inj (hx.symm.trans hy)]
    · rcases mem_record hid' with rfl | hid'
      · exact .inr ⟨place, op, x, hlast, hx, ha.inputId⟩
      · rcases h.ids id' hid' with hold | ⟨place', op', y, hc, hy⟩
        · exact .inl hold
        · exact .inr ⟨place', op', y, List.mem_append_left _ hc, hy⟩

end Arrivals

end Client
end RemoteCodex
