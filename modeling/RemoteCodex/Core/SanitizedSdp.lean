import Mathlib.Algebra.Order.BigOperators.Group.List
import RemoteCodex.Lib.Newlines
import RemoteCodex.Core.CandidateLine

namespace RemoteCodex
set_option autoImplicit true
open Newlines

/-- The lines that `sanitizeSdp` does not drop. -/
def keeps (l : List Char) : Bool :=
  !"a=candidate:".toList.isPrefixOf l && l != "a=end-of-candidates".toList

def rtpmap (l : List Char) : Bool :=
  "a=rtpmap:".toList.isPrefixOf l && " H264/90000".toList.isSuffixOf (l.map Char.toUpper)

/-- The lines of a description of one video stream. -/
structure OneVideo (ls : List (List Char)) : Prop where
  media : (ls.filter fun l => "m=".toList.isPrefixOf l).length = 1
  video : ls.any (fun l => "m=video ".toList.isPrefixOf l) = true
  dtls : ls.any fingerprint = true
  codec : ls.any rtpmap = true

instance (ls : List (List Char)) : Decidable (OneVideo ls) :=
  decidable_of_iff (_ ∧ _ ∧ _ ∧ _)
    ⟨fun h => ⟨h.1, h.2.1, h.2.2.1, h.2.2.2⟩, fun h => ⟨h.media, h.video, h.dtls, h.codec⟩⟩

structure SdpText (s : List Char) : Prop where
  size : utf8Length s ≤ 65536
  nul : s.contains (Char.ofNat 0) = false

/-- A line as `lines` gives it. -/
structure Trimmed (l : List Char) : Prop where
  newline : '\n' ∉ l
  bare : l.getLast? ≠ some '\r'

theorem mem_lines (h : l ∈ lines s) : Trimmed l := by
  obtain ⟨piece, hp, rfl⟩ := List.mem_map.1 h
  have hmem : piece ∈ s.splitOn '\n' := by
    split at hp
    · exact (List.dropLast_sublist _).subset hp
    · exact hp
  constructor
  · intro hc
    have hc' := (List.dropWhile_suffix _).subset (List.mem_reverse.1 hc)
    exact (Pieces.mem_piece hmem (List.mem_reverse.1 hc')).2 rfl
  · intro hlast
    rw [List.getLast?_reverse] at hlast
    cases Pieces.head_dropWhile (· == '\r') piece.reverse '\r' hlast

instance (l : List Char) : Decidable (Trimmed l) :=
  decidable_of_iff (_ ∧ _) ⟨fun h => ⟨h.1, h.2⟩, fun h => ⟨h.newline, h.bare⟩⟩

/-- Lines that end with LF, whatever carriage returns stand before it, are read back. -/
theorem lines_ended {r : List Char} (hr : ∀ c ∈ r, c = '\r') {ls : List (List Char)}
    (h : ∀ l ∈ ls, Trimmed l) : lines (ended (r ++ ['\n']) ls) = ls := by
  have hsplit : (ended (r ++ ['\n']) ls).splitOn '\n' = ls.map (· ++ r) ++ [[]] := by
    rw [Pieces.splitOn_eq_iff (List.concat_ne_nil _ _), ended_eq_intercalate]
    intro p hp
    rcases List.mem_append.1 hp with hp | hp
    · obtain ⟨l, hl, rfl⟩ := List.mem_map.1 hp
      rw [List.mem_append]
      rintro (hc | hc)
      · exact (h l hl).newline hc
      · exact absurd (hr _ hc) (by decide)
    · rw [List.mem_singleton.1 hp]
      exact List.not_mem_nil
  have htrim : ∀ l ∈ ls, ((l ++ r).reverse.dropWhile (· == '\r')).reverse = l := by
    intro l hl
    have hreturns : ∀ c ∈ r.reverse, (c == '\r') = true := fun c hc =>
      beq_iff_eq.2 (hr c (List.mem_reverse.1 hc))
    have hbare : l.reverse.dropWhile (· == '\r') = l.reverse := by
      apply Pieces.dropWhile_of_head
      intro c hc
      rw [List.head?_reverse] at hc
      rw [beq_eq_false_iff_ne]
      rintro rfl
      exact (h l hl).bare hc
    rw [List.reverse_append, List.dropWhile_append_of_pos hreturns, hbare, List.reverse_reverse]
  rw [lines, hsplit, List.getLast?_concat]
  simp only [if_true, List.dropLast_concat, List.map_map]
  exact (List.map_congr_left htrim).trans ls.map_id

/-- A line with another start than those that are dropped. -/
theorem keeps_of_prefix {start l : List Char} (hl : start <+: l)
    (h : ¬ start <+: "a=candidate:".toList ∧ ¬ "a=candidate:".toList <+: start ∧
      ¬ start <+: "a=end-of-candidates".toList) : keeps l = true := by
  rw [keeps, Bool.and_eq_true, Bool.not_eq_true', ← Bool.not_eq_true, List.isPrefixOf_iff_prefix,
    bne_iff_ne]
  constructor
  · intro hc
    exact (List.prefix_or_prefix_of_prefix hl hc).elim h.1 h.2.1
  · rintro rfl
    exact h.2.2 hl

theorem starts_of_fingerprint (h : fingerprint l = true) :
    "a=fingerprint:sha-256 ".toList <+: l := by
  rw [fingerprint, Bool.and_eq_true] at h
  exact List.isPrefixOf_iff_prefix.1 h.1

theorem starts_of_rtpmap (h : rtpmap l = true) : "a=rtpmap:".toList <+: l := by
  rw [rtpmap, Bool.and_eq_true] at h
  exact List.isPrefixOf_iff_prefix.1 h.1

theorem media_keeps (h : "m=".toList.isPrefixOf l = true) : keeps l = true :=
  keeps_of_prefix (List.isPrefixOf_iff_prefix.1 h) (by decide)

theorem filter_media (ls : List (List Char)) :
    ((ls.filter keeps).filter fun l => "m=".toList.isPrefixOf l) =
      ls.filter fun l => "m=".toList.isPrefixOf l := by
  rw [List.filter_filter]
  refine List.filter_congr fun l _ => ?_
  cases hm : "m=".toList.isPrefixOf l with
  | false => rfl
  | true => exact media_keeps hm

/-- No line that is asked for is dropped. -/
theorem OneVideo.kept {ls : List (List Char)} (h : OneVideo ls) : OneVideo (ls.filter keeps) := by
  have hany {f : List Char → Bool} (hf : ∀ l, f l = true → keeps l = true) (ha : ls.any f = true) :
      (ls.filter keeps).any f = true := by
    obtain ⟨l, hl, hfl⟩ := List.any_eq_true.1 ha
    exact List.any_eq_true.2 ⟨l, List.mem_filter.2 ⟨hl, hf l hfl⟩, hfl⟩
  constructor
  · rw [filter_media]
    exact h.media
  · refine hany (fun l hl => ?_) h.video
    exact keeps_of_prefix (List.isPrefixOf_iff_prefix.1 hl) (by decide)
  · exact hany (fun l hl => keeps_of_prefix (starts_of_fingerprint hl) (by decide)) h.dtls
  · exact hany (fun l hl => keeps_of_prefix (starts_of_rtpmap hl) (by decide)) h.codec

theorem OneVideo.ne_nil {ls : List (List Char)} (h : OneVideo ls) : ls ≠ [] := by
  rintro rfl
  cases h.video

theorem OneVideo.append {ls more : List (List Char)} (h : OneVideo ls)
    (hm : ∀ l ∈ more, "m=".toList.isPrefixOf l = false) : OneVideo (ls ++ more) := by
  have hany {f : List Char → Bool} (ha : ls.any f = true) : (ls ++ more).any f = true := by
    rw [List.any_append, ha, Bool.true_or]
  have hmore : (more.filter fun l => "m=".toList.isPrefixOf l) = [] :=
    List.filter_eq_nil_iff.2 fun l hl => Bool.eq_false_iff.1 (hm l hl)
  refine ⟨?_, hany h.video, hany h.dtls, hany h.codec⟩
  rw [List.filter_append, hmore, List.append_nil]
  exact h.media

/-- What is left of a text: its lines with CRLF at their ends, without those of candidates. -/
def clean (s : List Char) : List Char := crlf ((lines s).filter keeps)

theorem sdpText_iff {s : List Char} :
    SdpText s ↔ ¬ (65536 < utf8Length s ∨ s.contains (Char.ofNat 0) = true) := by
  rw [not_or, Nat.not_lt, Bool.not_eq_true]
  exact ⟨fun h => ⟨h.size, h.nul⟩, fun h => ⟨h.1, h.2⟩⟩

/-- What is accepted, and what becomes of it. -/
theorem sanitizeSdp_eq_ok {s t : String} : sanitizeSdp s = .ok t ↔
    SdpText s.toList ∧ OneVideo (lines s.toList) ∧ t.toList = clean s.toList := by
  have htext {u : List Char} : Except.ok (String.ofList u) = (.ok t : Except String String) ↔
      t.toList = u := by
    rw [Except.ok.injEq, eq_comm, ← String.toList_inj, String.toList_ofList]
  constructor
  · intro h
    unfold sanitizeSdp at h
    simp only at h
    split at h
    · cases h
    next hsize =>
    split at h
    · cases h
    next hmedia =>
    split at h
    · cases h
    next hcodec =>
    simp only [not_or, not_not, Bool.not_eq_true, Bool.not_eq_false] at hmedia hcodec
    have hv : OneVideo (lines s.toList) := ⟨hmedia.1, hmedia.2, hcodec.1, hcodec.2⟩
    refine ⟨sdpText_iff.2 hsize, hv, ?_⟩
    rw [clean, crlf, ← intercalate_ended _ hv.kept.ne_nil]
    exact htext.1 h
  · rintro ⟨hsize, hv, ht⟩
    unfold sanitizeSdp
    simp only
    rw [if_neg (sdpText_iff.1 hsize), if_neg, if_neg]
    · rw [htext, ht, clean, crlf, ← intercalate_ended _ hv.kept.ne_nil]
      rfl
    · rw [not_or, not_not, not_not]
      exact ⟨hv.dtls, hv.codec⟩
    · rw [not_or, not_not, not_not]
      exact ⟨hv.media, hv.video⟩

theorem lines_clean (s : List Char) : lines (clean s) = (lines s).filter keeps :=
  lines_ended (r := ['\r']) (List.forall_mem_singleton.2 rfl) fun _ hl =>
    mem_lines (List.mem_filter.1 hl).1

theorem clean_clean (s : List Char) : clean (clean s) = clean s := by
  rw [clean, lines_clean, List.filter_filter, clean]
  simp only [Bool.and_self]

theorem mem_of_lines (hl : l ∈ lines s) (hc : c ∈ l) : c ∈ s := by
  obtain ⟨piece, hp, rfl⟩ := List.mem_map.1 hl
  have hmem : piece ∈ s.splitOn '\n' := by
    split at hp
    · exact (List.dropLast_sublist _).subset hp
    · exact hp
  have hc' := (List.dropWhile_suffix _).subset (List.mem_reverse.1 hc)
  exact (Pieces.mem_piece hmem (List.mem_reverse.1 hc')).1

theorem nul_clean {s : List Char} (h : s.contains (Char.ofNat 0) = false) :
    (clean s).contains (Char.ofNat 0) = false := by
  rw [List.contains_eq_mem, decide_eq_false_iff_not] at h ⊢
  intro hc
  obtain ⟨l, hl, hc⟩ := List.mem_flatMap.1 hc
  rcases List.mem_append.1 hc with hc | hc
  · exact h (mem_of_lines (List.mem_filter.1 hl).1 hc)
  · exact absurd hc (by decide)

/-- The bytes of the lines that are kept of a text, with two for the end of each. -/
def keptBytes (s : List Char) : Nat :=
  (((lines s).filter keeps).map fun l => utf8Length l + 2).sum

theorem utf8Length_ended (e : List Char) (ls : List (List Char)) :
    utf8Length (ended e ls) = (ls.map fun l => utf8Length l + utf8Length e).sum := by
  induction ls with
  | nil => rfl
  | cons l ls ih =>
    rw [List.map_cons, List.sum_cons, ← ih, ended_cons, utf8Length_append, utf8Length_append]

/-- What was accepted can only become too long. -/
theorem sanitizeSdp_again {s t : String} (h : sanitizeSdp s = .ok t) : sanitizeSdp t =
    if keptBytes s.toList ≤ 65536 then .ok t else .error "Invalid SDP size" := by
  obtain ⟨hs, hv, ht⟩ := sanitizeSdp_eq_ok.1 h
  have hsize : utf8Length t.toList = keptBytes s.toList := by
    rw [ht]
    exact utf8Length_ended _ _
  split
  · next hle =>
    rw [sanitizeSdp_eq_ok, ht, clean_clean, lines_clean]
    refine ⟨⟨?_, nul_clean hs.nul⟩, hv.kept, rfl⟩
    rw [← ht, hsize]
    exact hle
  · next hlong =>
    unfold sanitizeSdp
    rw [if_pos]
    left
    rw [hsize]
    exact Nat.not_le.1 hlong

/-- A text that the sanitiser has made passes it unchanged when the lines that were kept, each with
two bytes for its end, are within the bound. -/
theorem sanitizeSdp_idempotent {s t : String} (h : sanitizeSdp s = .ok t) :
    sanitizeSdp t = .ok t ↔ keptBytes s.toList ≤ 65536 := by
  rw [sanitizeSdp_again h]
  split
  · next hle => exact iff_of_true rfl hle
  · next hlong => exact iff_of_false (fun hc => by cases hc) hlong

/-- A text whose lines end with CRLF does not grow. -/
theorem keptBytes_crlf {ls : List (List Char)} (h : ∀ l ∈ ls, Trimmed l) :
    keptBytes (crlf ls) ≤ utf8Length (crlf ls) := by
  have hlines : lines (crlf ls) = ls :=
    lines_ended (r := ['\r']) (List.forall_mem_singleton.2 rfl) h
  rw [keptBytes, hlines, crlf, utf8Length_ended]
  exact (List.filter_sublist.map _).sum_le_sum fun _ _ => Nat.zero_le _

theorem sanitizeSdp_again_crlf {ls : List (List Char)} (hl : ∀ l ∈ ls, Trimmed l) {t : String}
    (h : sanitizeSdp (String.ofList (crlf ls)) = .ok t) : sanitizeSdp t = .ok t := by
  have hsize := (sanitizeSdp_eq_ok.1 h).1.size
  rw [sanitizeSdp_again h, if_pos]
  rw [String.toList_ofList] at hsize ⊢
  exact Nat.le_trans (keptBytes_crlf hl) hsize

/-- Read with CR, LF or CRLF as line ends, a text has no candidate, and video is its only medium. -/
structure VideoOnly (t : List Char) : Prop where
  candidates : ∀ l ∈ readLines false t, ¬ "a=candidate:".toList <+: l
  media : ∃ l, (readLines false t).filter (fun l => "m=".toList.isPrefixOf l) = [l] ∧
    "m=video ".toList <+: l

/-- A carriage return inside a line hides a candidate or a medium. -/
def Smuggled (s : List Char) : Prop :=
  ∃ l ∈ lines s, ¬ "a=candidate:".toList <+: l ∧
    ∃ m ∈ ["a=candidate:".toList, "m=".toList], ('\r' :: m) <:+: l

theorem isEol_false {m : List Char} (h : m.any isEol = false) : ∀ c ∈ m, isEol c = false :=
  fun c hc => Bool.eq_false_iff.2 (List.any_eq_false.1 h c hc)

theorem inner_sum {ls : List (List Char)} (h : ∀ l ∈ ls, Trimmed l) {m : List Char}
    (hm : m.any isEol = false) :
    (ls.map (inner m)).sum = 0 ↔ ∀ l ∈ ls, ¬ ('\r' :: m) <:+: l := by
  rw [List.sum_eq_zero_iff_forall_eq_nat, List.forall_mem_map]
  refine forall₂_congr fun l hl => ?_
  rw [← not_iff_not, not_not, ← ne_eq, ← Nat.pos_iff_ne_zero,
    inner_pos (isEol_false hm)]
  refine ⟨?_, fun hin => ⟨'\r', rfl, hin⟩⟩
  rintro ⟨c, hc, hin⟩
  have hnot : c ≠ '\n' := by
    rintro rfl
    exact (h l hl).newline (hin.subset (List.mem_cons_self ..))
  rw [isEol, Bool.or_eq_true, beq_iff_eq, beq_iff_eq] at hc
  rwa [hc.resolve_right hnot] at hin

theorem videoOnly_iff {t : List Char} : VideoOnly t ↔
    ((readLines false t).countP fun l => "a=candidate:".toList.isPrefixOf l) = 0 ∧
      ((readLines false t).countP fun l => "m=".toList.isPrefixOf l) = 1 ∧
        0 < (readLines false t).countP fun l => "m=video ".toList.isPrefixOf l := by
  simp only [List.countP_eq_zero, List.countP_pos_iff, List.isPrefixOf_iff_prefix]
  rw [List.countP_eq_length_filter, List.length_eq_one_iff]
  constructor
  · rintro ⟨hc, l, hl, hv⟩
    have hmem : l ∈ (readLines false t).filter fun l => "m=".toList.isPrefixOf l := by
      rw [hl]
      exact List.mem_singleton_self l
    exact ⟨hc, ⟨l, hl⟩, l, (List.mem_filter.1 hmem).1, hv⟩
  · rintro ⟨hc, ⟨l, hl⟩, v, hmem, hv⟩
    have hvl : v ∈ (readLines false t).filter fun l => "m=".toList.isPrefixOf l := by
      rw [List.mem_filter, List.isPrefixOf_iff_prefix]
      exact ⟨hmem, List.IsPrefix.trans (by decide) hv⟩
    rw [hl, List.mem_singleton] at hvl
    exact ⟨hc, l, hl, hvl ▸ hv⟩

theorem countP_kept {s : List Char} {m : List Char} (hne : m ≠ []) (hm : m.any isEol = false) :
    ((readLines false (clean s)).countP fun l => m.isPrefixOf l) =
      (((lines s).filter keeps).countP fun l => m.isPrefixOf l) +
        (((lines s).filter keeps).map (inner m)).sum :=
  count_crlf hne (isEol_false hm) _

/-- What the sanitiser accepts is video only unless a carriage return inside a line hides a
candidate or a medium. -/
theorem sanitizeSdp_videoOnly {s t : String} (h : sanitizeSdp s = .ok t) :
    VideoOnly t.toList ↔ ¬ Smuggled s.toList := by
  obtain ⟨-, hv, ht⟩ := sanitizeSdp_eq_ok.1 h
  have htrim : ∀ l ∈ (lines s.toList).filter keeps, Trimmed l := fun l hl =>
    mem_lines (List.mem_filter.1 hl).1
  have hcandidates : (((lines s.toList).filter keeps).countP
      fun l => "a=candidate:".toList.isPrefixOf l) = 0 := by
    rw [List.countP_eq_zero]
    intro l hl hc
    have hk := (List.mem_filter.1 hl).2
    rw [keeps, hc] at hk
    cases hk
  have hmedia := hv.kept.media
  have hvideo : 0 < ((lines s.toList).filter keeps).countP
      fun l => "m=video ".toList.isPrefixOf l := by
    rw [List.countP_pos_iff]
    exact List.any_eq_true.1 hv.kept.video
  rw [← List.countP_eq_length_filter] at hmedia
  rw [videoOnly_iff, ht, countP_kept (by decide) (by decide), countP_kept (by decide) (by decide),
    countP_kept (by decide) (by decide), hcandidates, hmedia, Nat.zero_add,
    inner_sum htrim (by decide), Nat.add_eq_left, inner_sum htrim (by decide)]
  constructor
  · rintro ⟨hc, hm, -⟩ ⟨l, hl, hnc, m, hmem, hin⟩
    have hkeeps : l ∈ (lines s.toList).filter keeps := by
      rw [List.mem_filter, keeps, Bool.and_eq_true, Bool.not_eq_true', ← Bool.not_eq_true,
        List.isPrefixOf_iff_prefix, bne_iff_ne]
      refine ⟨hl, hnc, ?_⟩
      rintro rfl
      exact absurd (hin.subset (List.mem_cons_self ..)) (by decide)
    rcases List.mem_pair.1 hmem with rfl | rfl
    · exact hc l hkeeps hin
    · exact hm l hkeeps hin
  · intro hnot
    have hclear : ∀ l ∈ (lines s.toList).filter keeps,
        ∀ m ∈ ["a=candidate:".toList, "m=".toList], ¬ ('\r' :: m) <:+: l := by
      intro l hl m hm hin
      have hzero := List.countP_eq_zero.1 hcandidates l hl
      rw [List.isPrefixOf_iff_prefix] at hzero
      exact hnot ⟨l, (List.mem_filter.1 hl).1, hzero, m, hm, hin⟩
    exact ⟨fun l hl => hclear l hl _ (List.mem_cons_self ..),
      fun l hl => hclear l hl _ (List.mem_cons_of_mem _ (List.mem_singleton_self _)),
      Nat.add_pos_left hvideo _⟩

/-- The lines of an answer. -/
def answerLines : List (List Char) :=
  ["v=0".toList, "m=video 9 UDP/TLS/RTP/SAVPF 96".toList,
    "a=fingerprint:sha-256 ".toList ++ [':'].intercalate (List.replicate 32 ['A', 'A']),
    "a=rtpmap:96 H264/90000".toList]

/-- A line that may follow them. -/
structure Further (l : List Char) : Prop where
  trimmed : Trimmed l
  media : "m=".toList.isPrefixOf l = false
  nul : Char.ofNat 0 ∉ l

instance (l : List Char) : Decidable (Further l) :=
  decidable_of_iff (_ ∧ _ ∧ _)
    ⟨fun h => ⟨h.1, h.2.1, h.2.2⟩, fun h => ⟨h.trimmed, h.media, h.nul⟩⟩

theorem answerLines_ok : (∀ l ∈ answerLines, Trimmed l ∧ Char.ofNat 0 ∉ l) ∧
    OneVideo answerLines ∧ (answerLines.map fun l => utf8Length l + 1).sum ≤ 536 := by
  decide +kernel

/-- Each line end of the input is one byte. -/
def answerSdp (more : List (List Char)) : List Char := ended ['\n'] (answerLines ++ more)

variable {more : List (List Char)}

theorem lines_answerSdp (h : ∀ l ∈ more, Further l) :
    lines (answerSdp more) = answerLines ++ more := by
  refine lines_ended (r := []) (List.forall_mem_nil _) fun l hl => ?_
  rcases List.mem_append.1 hl with hl | hl
  · exact (answerLines_ok.1 l hl).1
  · exact (h l hl).trimmed

theorem answerSdp_ok (h : ∀ l ∈ more, Further l)
    (hsize : (more.map fun l => utf8Length l + 1).sum ≤ 65000) :
    sanitizeSdp (String.ofList (answerSdp more)) =
      .ok (String.ofList (clean (answerSdp more))) := by
  rw [sanitizeSdp_eq_ok, String.toList_ofList, String.toList_ofList, lines_answerSdp h]
  refine ⟨⟨?_, ?_⟩, answerLines_ok.2.1.append fun l hl => (h l hl).media, rfl⟩
  · have hend : utf8Length ['\n'] = 1 := by decide
    rw [answerSdp, utf8Length_ended, hend, List.map_append, List.sum_append]
    exact Nat.add_le_add answerLines_ok.2.2 hsize
  · rw [List.contains_eq_mem, decide_eq_false_iff_not]
    intro hc
    obtain ⟨l, hl, hc⟩ := List.mem_flatMap.1 hc
    rcases List.mem_append.1 hc with hc | hc
    · rcases List.mem_append.1 hl with hl | hl
      · exact (answerLines_ok.1 l hl).2 hc
      · exact (h l hl).nul hc
    · exact absurd hc (by decide)

theorem sanitizeSdp_idempotent_answer :
    sanitizeSdp (String.ofList (clean (answerSdp []))) =
        .ok (String.ofList (clean (answerSdp []))) ↔
      keptBytes (String.ofList (answerSdp [])).toList ≤ 65536 :=
  sanitizeSdp_idempotent (answerSdp_ok (fun _ hl => absurd hl List.not_mem_nil) (by decide))

theorem blank_bytes (n k : Nat) :
    ((List.replicate n ([] : List Char)).map fun l => utf8Length l + k).sum = n * k := by
  have hk : utf8Length [] + k = k := Nat.zero_add k
  rw [List.map_replicate, hk, List.sum_replicate_nat]

/-- Empty lines are two bytes each in the output. -/
theorem sanitizeSdp_grows : ¬ ∀ s t : String, sanitizeSdp s = .ok t → sanitizeSdp t = .ok t := by
  intro hall
  let more : List (List Char) := List.replicate 33000 []
  have hmore : ∀ l ∈ more, Further l := by
    intro l hl
    rw [(List.mem_replicate.1 hl).2]
    decide
  have hok := answerSdp_ok hmore (by rw [blank_bytes]; decide)
  have hagain := (sanitizeSdp_again hok).symm.trans (hall _ _ hok)
  have hbytes : 65536 < keptBytes (answerSdp more) := by
    have hkept : (more.filter keeps) = more := List.filter_eq_self.2 fun l hl => by
      rw [(List.mem_replicate.1 hl).2]
      rfl
    rw [keptBytes, lines_answerSdp hmore, List.filter_append, hkept, List.map_append,
      List.sum_append]
    have hsum : (more.map fun l => utf8Length l + 2).sum = 33000 * 2 := blank_bytes 33000 2
    omega
  rw [String.toList_ofList, if_neg (Nat.not_le.2 hbytes)] at hagain
  cases hagain

theorem sanitizeSdp_videoOnly_answer :
    VideoOnly (String.ofList (clean (answerSdp []))).toList ↔
      ¬ Smuggled (String.ofList (answerSdp [])).toList :=
  sanitizeSdp_videoOnly (answerSdp_ok (fun _ hl => absurd hl List.not_mem_nil) (by decide))

/-- A candidate behind a carriage return is passed on. -/
def hiddenCandidate : List Char :=
  "a=x\ra=candidate:1 1 udp 1 192.0.2.1 50000 typ host".toList

theorem sanitizeSdp_leaks :
    ¬ ∀ s t : String, sanitizeSdp s = .ok t → VideoOnly t.toList := by
  intro hall
  have hmore : ∀ l ∈ [hiddenCandidate], Further l := by decide +kernel
  have hvideo := hall _ _ (answerSdp_ok hmore (by decide +kernel))
  rw [String.toList_ofList] at hvideo
  have hzero := (videoOnly_iff.1 hvideo).1
  rw [countP_kept (by decide) (by decide), lines_answerSdp hmore] at hzero
  exact absurd hzero (by decide +kernel)

end RemoteCodex
