import Mathlib.Algebra.Group.Nat.Defs
import Mathlib.Data.List.Induction
import RemoteCodex.Lib.Records
import RemoteCodex.Lib.Slices
import RemoteCodex.Core.Frame

namespace RemoteCodex
set_option autoImplicit true
open Slices Records

def MAX_MESSAGE : Nat := 256 * 1024

/-- `Uuid::from_slice` -/
def Uuid.fromSlice (bytes : List UInt8) : Option Uuid :=
  if h : bytes.length = 16 then some ⟨bytes, h⟩ else none

namespace Frame

/-- `u32::from_be_bytes` and `u64::from_be_bytes` -/
def fromBeBytes (bytes : List UInt8) : Nat := bytes.foldl (fun n b => 256 * n + b.toNat) 0

/-- `usize::checked_add` -/
def checkedAdd (a b : Nat) : Option Nat := if a + b ≤ u64Max then some (a + b) else none

/-- The frame at `pos`, which is below the end of the data, and where it ends. -/
def decodeNext (data : List UInt8) (pos : Nat) : Except ErrorCode (Frame × Nat) :=
  if data.length - pos < HEADER_LEN then .error .invalidRequest
  else
    let h := slice data pos (pos + HEADER_LEN)
    if slice h 0 4 ≠ magic ∨ h.getD 4 0 ≠ 1 ∨ ¬ (1 ≤ h.getD 5 0 ∧ h.getD 5 0 ≤ 6) ∨
        h.getD 6 0 ≠ 0 ∨ h.getD 7 0 ≠ 0 then
      .error .invalidRequest
    else
      let len := fromBeBytes (slice h 36 40)
      if MAX_PAYLOAD < len then .error .frameTooLarge
      else
        match checkedAdd pos (HEADER_LEN + len) with
        | none => .error .frameTooLarge
        | some stop =>
          if data.length < stop then .error .invalidRequest
          else
            match Uuid.fromSlice (slice h 8 24) with
            | none => .error .invalidRequest
            | some sessionId =>
              let generation := UInt32.ofNat (fromBeBytes (slice h 24 28))
              let sequence := UInt64.ofNat (fromBeBytes (slice h 28 36))
              let payload := slice data (pos + HEADER_LEN) stop
              .ok (⟨h.getD 5 0, sessionId, generation, sequence, payload⟩, stop)

theorem checkedAdd_eq_some {a b n : Nat} :
    checkedAdd a b = some n ↔ n = a + b ∧ a + b ≤ u64Max := by
  unfold checkedAdd
  split
  · next h => exact ⟨fun he => ⟨(Option.some.inj he).symm, h⟩, fun he => by rw [he.1]⟩
  · next h => exact ⟨fun he => (by cases he), fun he => absurd he.2 h⟩

theorem decodeNext_advances {data : List UInt8} {pos stop : Nat} {f : Frame}
    (h : decodeNext data pos = .ok (f, stop)) : pos < stop := by
  simp only [decodeNext] at h
  split at h
  · cases h
  · split at h
    · cases h
    · split at h
      · cases h
      · split at h
        · cases h
        · next hadd =>
          have hpos := (checkedAdd_eq_some.1 hadd).1
          split at h
          · cases h
          · split at h
            · cases h
            · cases h
              simp only [HEADER_LEN] at hpos
              omega

/-- The loop of `decode_all`, which pushes one frame after the other. -/
def reader (data : List UInt8) : Reader ErrorCode Frame := ⟨decodeNext data, decodeNext_advances⟩

def decodeAll (data : List UInt8) : Except ErrorCode (List Frame) :=
  if MAX_MESSAGE < data.length then .error .frameTooLarge else (reader data).readAll data.length 0

theorem toBeBytes_length (k n : Nat) : (toBeBytes k n).length = k := by
  induction k generalizing n with
  | zero => rfl
  | succ k ih => rw [toBeBytes, List.length_append, ih, List.length_singleton]

theorem fromBeBytes_append (bytes : List UInt8) (b : UInt8) :
    fromBeBytes (bytes ++ [b]) = 256 * fromBeBytes bytes + b.toNat := by
  rw [fromBeBytes, List.foldl_append]
  rfl

theorem fromBeBytes_toBeBytes (k n : Nat) : fromBeBytes (toBeBytes k n) = n % 256 ^ k := by
  induction k generalizing n with
  | zero => rw [Nat.pow_zero, Nat.mod_one]; rfl
  | succ k ih =>
    have hb : (UInt8.ofNat n).toNat = n % 256 := UInt8.toNat_ofNat'
    rw [toBeBytes, fromBeBytes_append, ih, hb, Nat.pow_succ', Nat.mod_mul, Nat.add_comm]

theorem toBeBytes_fromBeBytes (bytes : List UInt8) :
    toBeBytes bytes.length (fromBeBytes bytes) = bytes := by
  induction bytes using List.reverseRecOn with
  | nil => rfl
  | append_singleton bytes b ih =>
    have hb := b.toNat_lt
    have hdiv : (256 * fromBeBytes bytes + b.toNat) / 256 = fromBeBytes bytes := by omega
    have hlow : UInt8.ofNat (256 * fromBeBytes bytes + b.toNat) = b := by
      apply UInt8.toNat_inj.1
      rw [UInt8.toNat_ofNat']
      omega
    rw [List.length_append, List.length_singleton, toBeBytes, fromBeBytes_append, hdiv, ih, hlow]

theorem fromBeBytes_lt (bytes : List UInt8) : fromBeBytes bytes < 256 ^ bytes.length := by
  have h := fromBeBytes_toBeBytes bytes.length (fromBeBytes bytes)
  rw [toBeBytes_fromBeBytes] at h
  rw [h]
  exact Nat.mod_lt _ (Nat.pow_pos (by decide))

/-- Bytes are the digits of the number they make. -/
theorem eq_toBeBytes_iff {bytes : List UInt8} {k n : Nat} (hl : bytes.length = k)
    (hn : n < 256 ^ k) : bytes = toBeBytes k n ↔ fromBeBytes bytes = n := by
  constructor
  · intro h
    rw [h, fromBeBytes_toBeBytes, Nat.mod_eq_of_lt hn]
  · intro h
    rw [← h, ← hl, toBeBytes_fromBeBytes]

/-- The fields before the payload. -/
def header (f : Frame) : List UInt8 :=
  magic ++ ([1, f.kind, 0, 0] ++ (f.sessionId.bytes ++ (toBeBytes 4 f.generation.toNat ++
    (toBeBytes 8 f.sequence.toNat ++ toBeBytes 4 f.payload.length))))

theorem header_length (f : Frame) : f.header.length = HEADER_LEN := by
  simp only [header, List.length_append, toBeBytes_length, f.sessionId.length_eq]
  rfl

theorem encode_eq_ok {f : Frame} {bytes : List UInt8} :
    f.encode = .ok bytes ↔ f.Encodes ∧ bytes = f.header ++ f.payload := by
  have hwire : magic ++ [1, f.kind] ++ toBeBytes 2 0 ++ f.sessionId.bytes ++
      toBeBytes 4 f.generation.toNat ++ toBeBytes 8 f.sequence.toNat ++
      toBeBytes 4 f.payload.length ++ f.payload = f.header ++ f.payload := by
    simp only [header, List.append_assoc]
    rfl
  constructor
  · intro h
    refine ⟨⟨bytes, h⟩, ?_⟩
    unfold encode at h
    split at h
    · cases h
    · rw [hwire] at h
      injection h with h
      exact h.symm
  · rintro ⟨⟨bytes', h⟩, rfl⟩
    unfold encode at h ⊢
    split at h
    · cases h
    · next hok => rw [if_neg hok, hwire]

theorem append_eq_append {a b c d : List UInt8} (h : a.length = c.length) :
    a ++ b = c ++ d ↔ a = c ∧ b = d :=
  ⟨fun he => List.append_inj he h, fun ⟨hac, hbd⟩ => by rw [hac, hbd]⟩

/-- The fields of a header, each where it stands. -/
structure Fields (h : List UInt8) (f : Frame) : Prop where
  magic : slice h 0 4 = magic
  version : h.getD 4 0 = 1
  kind : h.getD 5 0 = f.kind
  reserved : h.getD 6 0 = 0 ∧ h.getD 7 0 = 0
  sessionId : slice h 8 24 = f.sessionId.bytes
  generation : fromBeBytes (slice h 24 28) = f.generation.toNat
  sequence : fromBeBytes (slice h 28 36) = f.sequence.toNat
  size : fromBeBytes (slice h 36 40) = f.payload.length

theorem eq_header_iff {h : List UInt8} {f : Frame} (hl : h.length = HEADER_LEN)
    (hp : f.payload.length < 2 ^ 32) : h = f.header ↔ Fields h f := by
  have hl40 : h.length = 40 := hl
  have hsplit : slice h 0 4 ++ (slice h 4 8 ++ (slice h 8 24 ++ (slice h 24 28 ++
      (slice h 28 36 ++ slice h 36 40)))) = h := by
    rw [slice_append_slice (by decide) (by decide), slice_append_slice (by decide) (by decide),
      slice_append_slice (by decide) (by decide), slice_append_slice (by decide) (by decide),
      slice_append_slice (by decide) (by decide), ← hl40, slice_all]
  have hflags : slice h 4 8 = [h.getD 4 0, h.getD 5 0, h.getD 6 0, h.getD 7 0] := by
    rw [slice_cons (by decide) (by omega) 0, slice_cons (by decide) (by omega) 0,
      slice_cons (by decide) (by omega) 0, slice_cons (by decide) (by omega) 0, slice_self]
  have hlen (a b : Nat) (hb : b ≤ 40) : (slice h a b).length = b - a :=
    slice_length (by omega)
  have hparts : h = f.header ↔ slice h 0 4 = Frame.magic ∧ slice h 4 8 = [1, f.kind, 0, 0] ∧
      slice h 8 24 = f.sessionId.bytes ∧ slice h 24 28 = toBeBytes 4 f.generation.toNat ∧
      slice h 28 36 = toBeBytes 8 f.sequence.toNat ∧
      slice h 36 40 = toBeBytes 4 f.payload.length := by
    rw [header, ← append_eq_append, ← append_eq_append, ← append_eq_append, ← append_eq_append,
      ← append_eq_append, hsplit]
    · exact hlen 0 4 (by decide)
    · exact hlen 4 8 (by decide)
    · rw [hlen 8 24 (by decide), f.sessionId.length_eq]
    · rw [hlen 24 28 (by decide), toBeBytes_length]
    · rw [hlen 28 36 (by decide), toBeBytes_length]
  have hgen := f.generation.toNat_lt
  have hseq := f.sequence.toNat_lt
  rw [hparts, eq_toBeBytes_iff (hlen 24 28 (by decide)) hgen,
    eq_toBeBytes_iff (hlen 28 36 (by decide)) hseq, eq_toBeBytes_iff (hlen 36 40 (by decide)) hp,
    hflags]
  constructor
  · rintro ⟨hmagic, hflags, hid, hg, hs, hn⟩
    simp only [List.cons.injEq, and_true] at hflags
    exact ⟨hmagic, hflags.1, hflags.2.1, hflags.2.2, hid, hg, hs, hn⟩
  · rintro ⟨hmagic, hversion, hkind, hreserved, hid, hg, hs, hn⟩
    simp only [List.cons.injEq, and_true]
    exact ⟨hmagic, ⟨hversion, hkind, hreserved⟩, hid, hg, hs, hn⟩

theorem fromSlice_eq_some {bytes : List UInt8} {u : Uuid} :
    Uuid.fromSlice bytes = some u ↔ bytes = u.bytes := by
  unfold Uuid.fromSlice
  split
  · next h =>
    rw [Option.some.injEq]
    exact ⟨fun he => by rw [← he], fun he => by cases u; cases he; rfl⟩
  · next h => exact ⟨fun he => (by cases he), fun he => absurd (he ▸ u.length_eq) h⟩

variable {data : List UInt8} {pos stop : Nat} {f : Frame}

/-- A frame that is decoded stands in the data as it is encoded. -/
theorem decodeNext_sound (h : decodeNext data pos = .ok (f, stop)) :
    f.Encodes ∧ stop = pos + f.size ∧ stop ≤ data.length ∧
      slice data pos stop = f.header ++ f.payload := by
  simp only [decodeNext] at h
  split at h
  · cases h
  next hroom =>
  rw [Nat.not_lt] at hroom
  have hpos : pos + HEADER_LEN ≤ data.length := by
    simp only [HEADER_LEN] at hroom ⊢
    omega
  have hlen : (slice data pos (pos + HEADER_LEN)).length = HEADER_LEN := by
    rw [slice_length hpos, Nat.add_sub_cancel_left]
  generalize hb : slice data pos (pos + HEADER_LEN) = bytes at h hlen
  split at h
  · cases h
  next hfields =>
  rw [not_or, not_or, not_or, not_or, not_not, not_not, not_not, not_not, not_not] at hfields
  obtain ⟨hmagic, hversion, hkind, hreserved⟩ := hfields
  split at h
  · cases h
  next hsize =>
  rw [Nat.not_lt] at hsize
  split at h
  · cases h
  next stop' hadd =>
  have hstop := (checkedAdd_eq_some.1 hadd).1
  split at h
  · cases h
  next hend =>
  rw [Nat.not_lt] at hend
  split at h
  · cases h
  next sessionId hid =>
  rw [fromSlice_eq_some] at hid
  cases h
  have hpayload : (slice data (pos + HEADER_LEN) stop).length =
      fromBeBytes (slice bytes 36 40) := by
    rw [slice_length hend]
    omega
  have hsmall (a b k : Nat) (hab : b - a = k) (hb : b ≤ 40) :
      fromBeBytes (slice bytes a b) < 256 ^ k := by
    have hl : (slice bytes a b).length = k := by
      rw [slice_length (by rw [hlen]; exact hb), hab]
    rw [← hl]
    exact fromBeBytes_lt _
  have hheader := (eq_header_iff (f := ⟨bytes.getD 5 0, sessionId,
    UInt32.ofNat (fromBeBytes (slice bytes 24 28)), UInt64.ofNat (fromBeBytes (slice bytes 28 36)),
    slice data (pos + HEADER_LEN) stop⟩) hlen
      (by rw [hpayload]; exact hsmall 36 40 4 rfl (by decide))).2 ?_
  · refine ⟨(encodes_iff _).2 ⟨by rw [hpayload]; exact hsize, hkind⟩, ?_, hend, ?_⟩
    · simp only [size, hpayload]
      omega
    · rw [← hheader, ← hb, slice_append_slice (by omega) (by omega)]
  · refine ⟨hmagic, hversion, rfl, hreserved, hid, ?_, ?_, hpayload.symm⟩
    · have hg := hsmall 24 28 4 rfl (by decide)
      exact (UInt32.toNat_ofNat_of_lt' hg).symm
    · have hs := hsmall 28 36 8 rfl (by decide)
      exact (UInt64.toNat_ofNat_of_lt' hs).symm

theorem decodeNext_complete (hd : data.length ≤ MAX_MESSAGE) (he : f.Encodes)
    (hstop : pos + f.size ≤ data.length)
    (h : slice data pos (pos + f.size) = f.header ++ f.payload) :
    decodeNext data pos = .ok (f, pos + f.size) := by
  obtain ⟨hsize, hkind⟩ := (encodes_iff f).1 he
  have hsum : pos + f.size = pos + (HEADER_LEN + f.payload.length) := by
    rw [size, Nat.add_comm HEADER_LEN]
  have hfits : pos + HEADER_LEN ≤ data.length := by omega
  have hlen : (slice data pos (pos + HEADER_LEN)).length = HEADER_LEN := by
    rw [slice_length hfits, Nat.add_sub_cancel_left]
  rw [← slice_append_slice (b := pos + HEADER_LEN) (by omega) (by omega),
    append_eq_append (by rw [hlen, header_length])] at h
  obtain ⟨hheader, hpayload⟩ := h
  have hshort : f.payload.length < 2 ^ 32 := by
    simp only [MAX_PAYLOAD] at hsize
    omega
  rw [eq_header_iff hlen hshort] at hheader
  have hadd : checkedAdd pos (HEADER_LEN + f.payload.length) = some (pos + f.size) := by
    rw [checkedAdd_eq_some]
    simp only [MAX_MESSAGE] at hd
    simp only [u64Max]
    omega
  have hroom : ¬ data.length - pos < HEADER_LEN := by omega
  simp only [decodeNext]
  rw [if_neg hroom, if_neg, hheader.size, if_neg (Nat.not_lt.2 hsize), hadd]
  · simp only
    rw [if_neg (Nat.not_lt.2 hstop), fromSlice_eq_some.2 hheader.sessionId]
    simp only [hheader.kind, hheader.generation, hheader.sequence, hpayload, UInt32.ofNat_toNat,
      UInt64.ofNat_toNat]
  · rw [hheader.kind]
    rintro (hbad | hbad | hbad | hbad | hbad)
    · exact hbad hheader.magic
    · exact hbad hheader.version
    · exact hbad hkind
    · exact hbad hheader.reserved.1
    · exact hbad hheader.reserved.2

theorem wire_length (f : Frame) : (f.header ++ f.payload).length = f.size := by
  rw [List.length_append, header_length, size, Nat.add_comm]

/-- What is read up to the end are frames whose encodings are the rest of the data. -/
theorem reads_iff (hd : data.length ≤ MAX_MESSAGE) {fs : List Frame} :
    Reads (decodeNext data) data.length pos fs ↔
      ∃ parts, List.Forall₂ (fun f bytes => f.encode = .ok bytes) fs parts ∧
        data.drop pos = parts.flatten := by
  constructor
  · intro h
    induction h with
    | done h => exact ⟨[], .nil, List.drop_eq_nil_iff.2 h⟩
    | item h hn _ ih =>
      obtain ⟨he, hstop, _, hslice⟩ := decodeNext_sound hn
      obtain ⟨parts, hparts, hdrop⟩ := ih
      refine ⟨_ :: parts, .cons (encode_eq_ok.2 ⟨he, rfl⟩) hparts, ?_⟩
      rw [List.flatten_cons, ← hdrop, ← hslice, slice_append_drop (by omega)]
  · rintro ⟨parts, hparts, hdrop⟩
    induction hparts generalizing pos with
    | nil => exact .done (List.drop_eq_nil_iff.1 hdrop)
    | @cons f bytes fs parts hf _ ih =>
      obtain ⟨he, hbytes⟩ := encode_eq_ok.1 hf
      have hlen : bytes.length = f.size := by rw [hbytes, wire_length]
      have htotal := congrArg List.length hdrop
      rw [List.flatten_cons, List.length_drop, List.length_append, hlen] at htotal
      have hsize : 0 < f.size := by
        simp only [size, HEADER_LEN]
        omega
      have hrest : data.drop (pos + f.size) = parts.flatten := by
        rw [← List.drop_drop, hdrop, List.flatten_cons, ← hlen, List.drop_left]
      have hslice : slice data pos (pos + f.size) = f.header ++ f.payload := by
        rw [slice, hdrop, List.flatten_cons, Nat.add_sub_cancel_left, ← hlen, List.take_left,
          hbytes]
      exact .item (by omega) (decodeNext_complete hd he (by omega) hslice) (ih hrest)

theorem decodeAll_eq_ok {fs : List Frame} :
    decodeAll data = .ok fs ↔
      data.length ≤ MAX_MESSAGE ∧ Reads (decodeNext data) data.length 0 fs := by
  unfold decodeAll
  split
  · next hlong =>
    constructor
    · intro h
      cases h
    · rintro ⟨hshort, _⟩
      omega
  · next hshort =>
    rw [readAll_eq_ok]
    exact ⟨fun h => ⟨Nat.le_of_not_lt hshort, h⟩, And.right⟩

theorem size_le (h : f.Encodes) : f.size ≤ MAX_MESSAGE := by
  have hsize := ((encodes_iff f).1 h).1
  simp only [MAX_PAYLOAD] at hsize
  simp only [size, HEADER_LEN, MAX_MESSAGE]
  omega

/-- A message of one frame. -/
theorem decodeAll_single (h : f.encode = .ok data) : decodeAll data = .ok [f] := by
  obtain ⟨he, hdata⟩ := encode_eq_ok.1 h
  have hlen : data.length ≤ MAX_MESSAGE := by
    rw [hdata, wire_length]
    exact size_le he
  rw [decodeAll_eq_ok, reads_iff hlen]
  exact ⟨hlen, [data], .cons h .nil, by rw [List.flatten_singleton, List.drop_zero]⟩

/-- Decoding and encoding are inverse to each other, on the messages that are short enough. -/
theorem codec_bijection (data : List UInt8) (fs : List Frame) :
    decodeAll data = .ok fs ↔ data.length ≤ MAX_MESSAGE ∧
      ∃ parts, List.Forall₂ (fun f bytes => f.encode = .ok bytes) fs parts ∧
        parts.flatten = data := by
  rw [decodeAll_eq_ok]
  refine and_congr_right fun hshort => ?_
  rw [reads_iff hshort, List.drop_zero]
  exact exists_congr fun parts => and_congr_right fun _ => eq_comm

end Frame
end RemoteCodex
