import RemoteCodex.Core.FrameCodec
import RemoteCodex.Client.UuidText
import RemoteCodex.Client.StreamGuard

namespace RemoteCodex
set_option autoImplicit true
open Slices Records
namespace Client

def HEADER_SIZE : Nat := 40

def getUint8 (view : List UInt8) (offset : Nat) : Nat := (view.getD offset 0).toNat

/-- `DataView.getUint32` -/
def getUint32 (view : List UInt8) (offset : Nat) : Nat :=
  65536 * getUint16 view offset + getUint16 view (offset + 2)

/-- `DataView.getBigUint64` -/
def getBigUint64 (view : List UInt8) (offset : Nat) : Nat :=
  4294967296 * getUint32 view offset + getUint32 view (offset + 4)

/-- The frame at `offset`, which is below the end of the data, and where it ends. -/
def decodeNext (bytes : List UInt8) (offset : Nat) : Except CodecError (TerminalFrame × Nat) :=
  if bytes.length - offset < HEADER_SIZE then .error .truncatedHeader
  else
    let view := slice bytes offset (offset + HEADER_SIZE)
    if getUint32 view 0 ≠ 0x5243544d ∨ getUint8 view 4 ≠ 1 then .error .protocolVersion
    else
      let kind := getUint8 view 5
      if kind < 1 ∨ 6 < kind ∨ getUint16 view 6 ≠ 0 then .error .invalidFlagsOrKind
      else
        let size := getUint32 view 36
        if MAX_PAYLOAD < size then .error .frameTooLarge
        else
          let stop := offset + HEADER_SIZE + size
          if bytes.length < stop then .error .truncatedPayload
          else
            match bytesUuid (slice bytes (offset + 8) (offset + 24)) with
            | .error e => .error e
            | .ok sessionId =>
              .ok (⟨.finite kind, sessionId, .finite (getUint32 view 24), getBigUint64 view 28,
                slice bytes (offset + HEADER_SIZE) stop⟩, stop)

theorem decodeNext_advances {bytes : List UInt8} {offset stop : Nat} {f : TerminalFrame}
    (h : decodeNext bytes offset = .ok (f, stop)) : offset < stop := by
  simp only [decodeNext] at h
  split at h
  · cases h
  · split at h
    · cases h
    · split at h
      · cases h
      · split at h
        · cases h
        · split at h
          · cases h
          · split at h
            · cases h
            · cases h
              simp only [HEADER_SIZE]
              omega

/-- The loop of `decodeFrames`. -/
def reader (bytes : List UInt8) : Reader CodecError TerminalFrame :=
  ⟨decodeNext bytes, decodeNext_advances⟩

def decodeFrames (bytes : List UInt8) : Except CodecError (List TerminalFrame) :=
  if bytes = [] ∨ MAX_MESSAGE < bytes.length then .error .frameTooLarge
  else (reader bytes).readAll bytes.length 0

/-- `bytes.set(data, offset)` -/
def set (bytes : List UInt8) (offset : Nat) (data : List UInt8) : List UInt8 :=
  bytes.take offset ++ (data ++ bytes.drop (offset + data.length))

/-- `DataView.setUint8`, `setUint32` and `setBigUint64`, by their width in bytes -/
def setUint (width : Nat) (bytes : List UInt8) (offset value : Nat) : List UInt8 :=
  set bytes offset (Frame.toBeBytes width value)

def encodeFrame (frame : TerminalFrame) : Except CodecError (List UInt8) :=
  if MAX_PAYLOAD < frame.payload.length then .error .invalidFrame
  else
    match Js.integerIn 1 6 (some (.number frame.kind)),
      Js.integerIn 0 0xffffffff (some (.number frame.generation)) with
    | some kind, some generation =>
      if frame.sequence < 0 ∨ 0xffffffffffffffff < frame.sequence then .error .invalidFrame
      else
        let bytes := List.replicate (HEADER_SIZE + frame.payload.length) 0
        let bytes := setUint 4 bytes 0 0x5243544d
        let bytes := setUint 1 bytes 4 1
        let bytes := setUint 1 bytes 5 kind
        match uuidBytes frame.sessionId with
        | .error e => .error e
        | .ok id =>
          let bytes := set bytes 8 id
          let bytes := setUint 4 bytes 24 generation
          let bytes := setUint 8 bytes 28 frame.sequence.toNat
          let bytes := setUint 4 bytes 36 frame.payload.length
          .ok (set bytes HEADER_SIZE frame.payload)
    | _, _ => .error .invalidFrame

end Client

/-- A frame as the client has it. -/
def Frame.toClient (f : Frame) : Client.TerminalFrame :=
  ⟨.finite f.kind.toNat, Js.str f.sessionId.hyphenated, .finite f.generation.toNat,
    f.sequence.toNat, f.payload⟩

namespace Client

/-- A frame of the client with the fields of a frame of the agent. The text of the session may
have capital letters. -/
structure Same (f : Frame) (t : TerminalFrame) : Prop where
  kind : t.kind = .finite f.kind.toNat
  sessionId : t.sessionId.map lower = Js.str f.sessionId.hyphenated
  generation : t.generation = .finite f.generation.toNat
  sequence : t.sequence = f.sequence.toNat
  payload : t.payload = f.payload

variable {view bytes : List UInt8}

theorem getUint16_eq {offset : Nat} (h : offset + 2 ≤ view.length) :
    getUint16 view offset = Frame.fromBeBytes (slice view offset (offset + 2)) := by
  rw [slice_cons (by omega) (by omega) 0, slice_cons (by omega) (by omega) 0, slice_self]
  simp only [getUint16, Frame.fromBeBytes, List.foldl_cons, List.foldl_nil, Nat.mul_zero,
    Nat.zero_add]

theorem fromBeBytes_append (a b : List UInt8) :
    Frame.fromBeBytes (a ++ b) = 256 ^ b.length * Frame.fromBeBytes a + Frame.fromBeBytes b := by
  induction b using List.reverseRecOn with
  | nil => simp only [List.append_nil, List.length_nil, Nat.pow_zero, Nat.one_mul]; rfl
  | append_singleton b x ih =>
    rw [← List.append_assoc, Frame.fromBeBytes_append, ih, Frame.fromBeBytes_append,
      List.length_append, List.length_singleton, Nat.pow_succ]
    ring

theorem getUint32_eq {offset : Nat} (h : offset + 4 ≤ view.length) :
    getUint32 view offset = Frame.fromBeBytes (slice view offset (offset + 4)) := by
  rw [← slice_append_slice (b := offset + 2) (by omega) (by omega), fromBeBytes_append,
    slice_length (by omega), getUint32, getUint16_eq (by omega), getUint16_eq (by omega)]
  have hw : offset + 4 - (offset + 2) = 2 := by omega
  rw [hw]
  rfl

theorem getBigUint64_eq {offset : Nat} (h : offset + 8 ≤ view.length) :
    getBigUint64 view offset = Frame.fromBeBytes (slice view offset (offset + 8)) := by
  rw [← slice_append_slice (b := offset + 4) (by omega) (by omega), fromBeBytes_append,
    slice_length (by omega), getBigUint64, getUint32_eq (by omega), getUint32_eq (by omega)]
  have hw : offset + 8 - (offset + 4) = 4 := by omega
  rw [hw]
  rfl

/-- The checks of a header, in Rust and in TypeScript. -/
theorem flags_iff (hl : view.length = HEADER_SIZE) :
    (slice view 0 4 ≠ Frame.magic ∨ view.getD 4 0 ≠ 1 ∨
        ¬ (1 ≤ view.getD 5 0 ∧ view.getD 5 0 ≤ 6) ∨ view.getD 6 0 ≠ 0 ∨ view.getD 7 0 ≠ 0) ↔
      (getUint32 view 0 ≠ 0x5243544d ∨ getUint8 view 4 ≠ 1) ∨
        getUint8 view 5 < 1 ∨ 6 < getUint8 view 5 ∨ getUint16 view 6 ≠ 0 := by
  have h40 : view.length = 40 := hl
  have hmagic : slice view 0 4 = Frame.magic ↔ getUint32 view 0 = 0x5243544d := by
    rw [getUint32_eq (by omega)]
    have hl4 : (slice view 0 4).length = 4 := by rw [slice_length (by omega)]
    exact Frame.eq_toBeBytes_iff (n := 0x5243544d) hl4 (by decide)
  have hversion : view.getD 4 0 = 1 ↔ getUint8 view 4 = 1 := UInt8.toNat_inj.symm
  have hkind : ¬ (1 ≤ view.getD 5 0 ∧ view.getD 5 0 ≤ 6) ↔
      getUint8 view 5 < 1 ∨ 6 < getUint8 view 5 := by
    rw [UInt8.le_iff_toNat_le, UInt8.le_iff_toNat_le, getUint8, UInt8.toNat_one]
    have h6 : (6 : UInt8).toNat = 6 := rfl
    omega
  have hreserved : (view.getD 6 0 ≠ 0 ∨ view.getD 7 0 ≠ 0) ↔ getUint16 view 6 ≠ 0 := by
    have h0 (b : UInt8) : b = 0 ↔ b.toNat = 0 := UInt8.toNat_inj.symm
    have h16 : getUint16 view 6 = 256 * (view.getD 6 0).toNat + (view.getD 7 0).toNat := rfl
    rw [ne_eq, ne_eq, h0, h0, h16]
    omega
  rw [ne_eq, ne_eq, hmagic, hversion, hkind, hreserved]
  simp only [or_assoc, ne_eq]

/-- The two decoders agree on the frame at an offset. -/
theorem decodeNext_alike (hd : bytes.length ≤ MAX_MESSAGE) {pos : Nat} (hp : pos < bytes.length) :
    Alike (fun x y => y.1 = x.1.toClient ∧ x.2 = y.2) (Frame.decodeNext bytes pos)
      (decodeNext bytes pos) := by
  have hsize : HEADER_SIZE = HEADER_LEN := rfl
  simp only [Frame.decodeNext, decodeNext, hsize]
  by_cases hroom : bytes.length - pos < HEADER_LEN
  · rw [if_pos hroom, if_pos hroom]
    exact .error ..
  rw [if_neg hroom, if_neg hroom]
  have hfits : pos + HEADER_LEN ≤ bytes.length := by omega
  have hid : slice (slice bytes pos (pos + HEADER_LEN)) 8 24 = slice bytes (pos + 8) (pos + 24) :=
    slice_slice (by simp only [HEADER_LEN]; omega)
  have hl : (slice bytes pos (pos + HEADER_LEN)).length = HEADER_SIZE := by
    rw [slice_length hfits, Nat.add_sub_cancel_left, hsize]
  rw [← hid]
  generalize slice bytes pos (pos + HEADER_LEN) = view at hl
  have h40 : view.length = 40 := hl
  by_cases hflags : getUint32 view 0 ≠ 0x5243544d ∨ getUint8 view 4 ≠ 1
  · rw [if_pos ((flags_iff hl).2 (.inl hflags)), if_pos hflags]
    exact .error ..
  rw [if_neg hflags]
  by_cases hkind : getUint8 view 5 < 1 ∨ 6 < getUint8 view 5 ∨ getUint16 view 6 ≠ 0
  · rw [if_pos ((flags_iff hl).2 (.inr hkind)), if_pos hkind]
    exact .error ..
  rw [if_neg hkind, if_neg fun h => ((flags_iff hl).1 h).elim hflags hkind]
  have hlen : Frame.fromBeBytes (slice view 36 40) = getUint32 view 36 :=
    (getUint32_eq (by omega)).symm
  rw [hlen]
  by_cases hbig : MAX_PAYLOAD < getUint32 view 36
  · rw [if_pos hbig, if_pos hbig]
    exact .error ..
  rw [if_neg hbig, if_neg hbig]
  have hadd : Frame.checkedAdd pos (HEADER_LEN + getUint32 view 36) =
      some (pos + HEADER_LEN + getUint32 view 36) := by
    rw [Frame.checkedAdd_eq_some]
    simp only [MAX_MESSAGE] at hd
    simp only [MAX_PAYLOAD] at hbig
    simp only [HEADER_LEN, u64Max]
    omega
  rw [hadd]
  simp only
  by_cases hend : bytes.length < pos + HEADER_LEN + getUint32 view 36
  · rw [if_pos hend, if_pos hend]
    exact .error ..
  rw [if_neg hend, if_neg hend]
  have hl16 : (slice view 8 24).length = 16 := by rw [slice_length (by omega)]
  let u : Uuid := ⟨slice view 8 24, hl16⟩
  have hrust : Uuid.fromSlice (slice view 8 24) = some u := Frame.fromSlice_eq_some.2 rfl
  have htext : bytesUuid (slice view 8 24) = .ok (groups u) := bytesUuid_eq u
  rw [hrust, htext]
  refine .ok ⟨?_, rfl⟩
  have hg : (UInt32.ofNat (Frame.fromBeBytes (slice view 24 28))).toNat = getUint32 view 24 := by
    have hw := Frame.fromBeBytes_lt (slice view 24 28)
    rw [slice_length (by omega)] at hw
    rw [getUint32_eq (by omega), UInt32.toNat_ofNat_of_lt' hw]
  have hs : (UInt64.ofNat (Frame.fromBeBytes (slice view 28 36))).toNat = getBigUint64 view 28 := by
    have hw := Frame.fromBeBytes_lt (slice view 28 36)
    rw [slice_length (by omega)] at hw
    rw [getBigUint64_eq (by omega), UInt64.toNat_ofNat_of_lt' hw]
  simp only [Frame.toClient, str_hyphenated, hg, hs]
  rfl

theorem decoders_alike (bytes : List UInt8) (hne : bytes ≠ []) :
    Alike (fun fs ts => ts = fs.map Frame.toClient) (Frame.decodeAll bytes)
      (decodeFrames bytes) := by
  unfold Frame.decodeAll decodeFrames
  by_cases hlong : MAX_MESSAGE < bytes.length
  · rw [if_pos hlong, if_pos (.inr hlong)]
    exact .error ..
  rw [if_neg hlong, if_neg (not_or.2 ⟨hne, hlong⟩)]
  have hnext : ∀ pos, pos < bytes.length →
      Alike (fun x y => y.1 = x.1.toClient ∧ x.2 = y.2) ((Frame.reader bytes).next pos)
        ((reader bytes).next pos) :=
    fun _ hp => decodeNext_alike (Nat.le_of_not_lt hlong) hp
  refine (readAll_alike (R := fun f t => t = Frame.toClient f) hnext).imp ?_
  intro fs ts h
  induction h with
  | nil => rfl
  | cons ht _ ih => rw [ht, ih, List.map_cons]

/-- Setting the next bytes of an array that is still zero from there on. -/
theorem set_zeros {done data : List UInt8} {offset n : Nat} (ho : done.length = offset) :
    set (done ++ List.replicate (data.length + n) 0) offset data =
      (done ++ data) ++ List.replicate n 0 := by
  subst ho
  rw [set, List.take_left, ← List.drop_drop, List.drop_left, List.drop_replicate,
    Nat.add_sub_cancel_left, List.append_assoc]

theorem setUint_zeros {done : List UInt8} {width offset n : Nat} (ho : done.length = offset)
    (value : Nat) :
    setUint width (done ++ List.replicate (width + n) 0) offset value =
      (done ++ Frame.toBeBytes width value) ++ List.replicate n 0 := by
  have h := @set_zeros done (Frame.toBeBytes width value) offset n ho
  rwa [Frame.toBeBytes_length] at h

/-- What the client encodes, field after field. -/
theorem encodeFrame_same {f : Frame} {t : TerminalFrame} (h : Same f t) (he : f.Encodes) :
    encodeFrame t = .ok (f.header ++ f.payload) := by
  obtain ⟨hsize, hlow, hhigh⟩ := (Frame.encodes_iff f).1 he
  have hkind : Js.integerIn 1 6 (some (.number t.kind)) = some f.kind.toNat := by
    rw [Js.integerIn_eq_some, h.kind]
    exact ⟨rfl, UInt8.le_iff_toNat_le.1 hlow, UInt8.le_iff_toNat_le.1 hhigh⟩
  have hgen : Js.integerIn 0 0xffffffff (some (.number t.generation)) =
      some f.generation.toNat := by
    have h32 := f.generation.toNat_lt
    rw [Js.integerIn_eq_some, h.generation]
    exact ⟨rfl, Nat.zero_le _, by omega⟩
  have hseq : ¬ (t.sequence < 0 ∨ 0xffffffffffffffff < t.sequence) := by
    have h64 := f.sequence.toNat_lt
    rw [h.sequence]
    omega
  have hnumber : t.sequence.toNat = f.sequence.toNat := by rw [h.sequence, Int.toNat_natCast]
  have hone (b : UInt8) : Frame.toBeBytes 1 b.toNat = [b] := by
    rw [Frame.toBeBytes, Frame.toBeBytes, UInt8.ofNat_toNat, List.nil_append]
  have hid := f.sessionId.length_eq
  have hwidths : HEADER_SIZE + f.payload.length = 4 + (1 + (1 + (2 + (f.sessionId.bytes.length +
      (4 + (8 + (4 + (f.payload.length + 0)))))))) := by
    rw [hid, HEADER_SIZE]
    omega
  have hzero : List.replicate (HEADER_SIZE + f.payload.length) (0 : UInt8) =
      [] ++ List.replicate (HEADER_SIZE + f.payload.length) 0 := rfl
  -- the two bytes after the kind are never set
  have hreserved (done : List UInt8) (n : Nat) :
      done ++ List.replicate (2 + n) 0 = (done ++ [0, 0]) ++ List.replicate n 0 := by
    rw [← List.replicate_append_replicate, List.append_assoc]
    rfl
  simp only [encodeFrame, h.payload, hkind, hgen, uuidBytes_text h.sessionId, hnumber]
  rw [if_neg (Nat.not_lt.2 hsize), if_neg hseq, hzero, hwidths, setUint_zeros, setUint_zeros,
    setUint_zeros, hreserved, set_zeros, setUint_zeros, setUint_zeros, setUint_zeros, set_zeros]
  · simp only [Frame.header, List.append_assoc, hone, List.replicate_zero, List.append_nil]
    rfl
  all_goals simp only [List.length_append, Frame.toBeBytes_length, hid, List.length_cons,
    List.length_nil, Nat.reduceAdd, HEADER_SIZE]

theorem encodes_of_encodeFrame {f : Frame} {t : TerminalFrame} (h : Same f t)
    (he : encodeFrame t = .ok bytes) : f.Encodes := by
  simp only [encodeFrame, h.payload] at he
  split at he
  · cases he
  next hsize =>
  split at he
  · next kind generation hkind _ =>
    rw [Js.integerIn_eq_some, h.kind] at hkind
    obtain ⟨hnumber, hlow, hhigh⟩ := hkind
    injection hnumber with hnumber
    injection hnumber with hnumber
    injection hnumber with hnumber
    have hk : f.kind.toNat = kind := Nat.cast_injective hnumber
    rw [← hk] at hlow hhigh
    exact (Frame.encodes_iff f).2
      ⟨Nat.le_of_not_lt hsize, UInt8.le_iff_toNat_le.2 hlow, UInt8.le_iff_toNat_le.2 hhigh⟩
  · cases he

theorem same_toClient (f : Frame) : Same f f.toClient := by
  refine ⟨rfl, ?_, rfl, rfl, rfl⟩
  simp only [Frame.toClient, str_hyphenated, lower_groups]

/-- A message of one frame. -/
theorem decodeFrames_single {f : Frame} (h : f.encode = .ok bytes) :
    decodeFrames bytes = .ok [f.toClient] := by
  have hne : bytes ≠ [] := by
    rw [(Frame.encode_eq_ok.1 h).2]
    exact List.cons_ne_nil _ _
  have hd := decoders_alike bytes hne
  rw [Frame.decodeAll_single h] at hd
  generalize decodeFrames bytes = result at hd
  cases hd with
  | ok ht => rw [ht, List.map_singleton]

/-- The codecs of the agent and of the client decode and encode alike. -/
theorem codecs_agree :
    (∀ bytes, bytes ≠ [] →
        Alike (fun fs ts => ts = fs.map Frame.toClient) (Frame.decodeAll bytes)
          (decodeFrames bytes)) ∧
      (∀ f, Same f f.toClient) ∧
      ∀ f t, Same f t → ∀ bytes, f.encode = .ok bytes ↔ encodeFrame t = .ok bytes := by
  refine ⟨decoders_alike, same_toClient, ?_⟩
  intro f t h bytes
  rw [Frame.encode_eq_ok]
  constructor
  · rintro ⟨he, rfl⟩
    exact encodeFrame_same h he
  · intro ht
    have he := encodes_of_encodeFrame h ht
    have hsame := encodeFrame_same h he
    rw [ht] at hsame
    injection hsame with hsame
    exact ⟨he, hsame⟩

/-- A frame of one byte, whose session is written in capital letters. -/
theorem codecs_agree_byte :
    let f : Frame := ⟨Frame.OUTPUT, .fill 0xab, 1, 7, [65]⟩
    ∃ bytes, encodeFrame ⟨Kind.Output, Js.str "ABABABAB-ABAB-ABAB-ABAB-ABABABABABAB", .finite 1, 7,
        [65]⟩ = .ok bytes ∧ decodeFrames bytes = .ok [f.toClient] := by
  intro f
  obtain ⟨hdecode, _, hencode⟩ := codecs_agree
  have hsame : Same f ⟨Kind.Output, Js.str "ABABABAB-ABAB-ABAB-ABAB-ABABABABABAB", .finite 1, 7,
      [65]⟩ := ⟨by decide, by decide, by decide, rfl, rfl⟩
  have he : f.encode = .ok (f.header ++ f.payload) :=
    Frame.encode_eq_ok.2 ⟨(Frame.encodes_iff f).2 (by decide), rfl⟩
  have hd := hdecode (f.header ++ f.payload) (by decide)
  rw [Frame.decodeAll_single he] at hd
  refine ⟨_, (hencode f _ hsame _).1 he, ?_⟩
  generalize decodeFrames (f.header ++ f.payload) = result at hd
  cases hd with
  | ok ht => rw [ht, List.map_singleton]

end Client
end RemoteCodex
