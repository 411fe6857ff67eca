import Mathlib
import Vibestudio.Rpc.StreamCodec

/-!
# The frame decoder and its buffer

`FrameDecoder` of `packages/rpc/src/protocol/streamCodec.ts`, with the buffer that it appends chunks to. The unread bytes
lie in `buf` from `offset` to `length`; an append finds room behind them, moves them to the front, or takes them along
to a larger buffer, and a decoder that has read everything lets its buffer go.

What the decoder does is a matter of its unread bytes alone (`FrameDecoder.drain_spec`), and these are the end of what has
been pushed (`FrameDecoder.append_spec`). So it delivers the frames of all the bytes pushed so far, however they are cut
into chunks (`pushes_spec`).
-/

namespace Vibestudio.Rpc

open Js

abbrev Frame := FrameType × List Byte

/-! ## The grammar -/

/-- The frames at the front of a byte string, what follows them, and the byte that is no frame type, if one follows. -/
structure ParsedWire where
  frames : List Frame
  unread : List Byte
  unknown : Option Byte
  deriving DecidableEq

theorem lt_of_front_frame {bytes payload rest : List Byte} {type : FrameType}
    (h : front bytes = .frame type payload rest) : rest.length + 5 ≤ bytes.length := by
  rcases bytes with _ | ⟨b, _ | ⟨b1, _ | ⟨b2, _ | ⟨b3, _ | ⟨b4, tail⟩⟩⟩⟩⟩
  iterate 5 cases h
  rw [front] at h
  split at h
  · cases h
  · simp only at h
    split_ifs at h
    obtain ⟨-, -, rfl⟩ := Front.frame.inj h
    simp only [List.length_cons, List.length_drop]
    omega

/-- A whole byte string is read by its five-byte headers. -/
def parseWire (bytes : List Byte) : ParsedWire :=
  match _ : front bytes with
  | .incomplete => ⟨[], bytes, none⟩
  | .unknown type => ⟨[], bytes, some type⟩
  | .frame type payload rest =>
    let parsed := parseWire rest
    { parsed with frames := (type, payload) :: parsed.frames }
termination_by bytes.length
decreasing_by
  have := lt_of_front_frame ‹_›
  omega

theorem parseWire_incomplete {bytes : List Byte} (h : front bytes = .incomplete) :
    parseWire bytes = ⟨[], bytes, none⟩ := by
  rw [parseWire]
  split <;> simp_all

theorem parseWire_unknown {bytes : List Byte} {type : Byte} (h : front bytes = .unknown type) :
    parseWire bytes = ⟨[], bytes, some type⟩ := by
  rw [parseWire]
  split <;> simp_all

theorem parseWire_frame {bytes payload rest : List Byte} {type : FrameType}
    (h : front bytes = .frame type payload rest) :
    parseWire bytes = { parseWire rest with frames := (type, payload) :: (parseWire rest).frames } := by
  rw [parseWire]
  split <;> simp_all

/-! ## The decoder -/

/-- `buf.set(bytes, at)`. -/
def overwrite (buf : List Byte) (start : ℕ) (bytes : List Byte) : List Byte :=
  buf.take start ++ bytes ++ buf.drop (start + bytes.length)

/-- The length of a payload: 32-bit shifts and unions, read without a sign. -/
def payloadLength (b1 b2 b3 b4 : Byte) : ℕ :=
  (BitVec.ofNat 32 b1.val <<< 24 ||| BitVec.ofNat 32 b2.val <<< 16 ||| BitVec.ofNat 32 b3.val <<< 8 |||
    BitVec.ofNat 32 b4.val).toNat

structure FrameDecoder where
  buf : List Byte
  offset : ℕ
  length : ℕ
  deriving DecidableEq

namespace FrameDecoder

def init : FrameDecoder := ⟨[], 0, 0⟩

def finished (d : FrameDecoder) : Bool := d.length = d.offset

def append (d : FrameDecoder) (chunk : List Byte) : FrameDecoder :=
  let d :=
    if d.buf.length < d.length + chunk.length then
      let unread := d.length - d.offset
      let required := unread + chunk.length
      let tail := (d.buf.take d.length).drop d.offset
      { buf :=
          if d.buf.length < required then
            overwrite (List.replicate (max required (d.buf.length * 2)) 0) 0 tail
          else overwrite d.buf 0 tail
        offset := 0
        length := unread }
    else d
  { d with buf := overwrite d.buf d.length chunk, length := d.length + chunk.length }

/-- What the decoder hands out, the byte it throws for, and what it is left as. -/
structure Drained where
  frames : List Frame
  unknown : Option Byte
  decoder : FrameDecoder
  deriving DecidableEq

/-- A decoder that has read everything lets its buffer go. -/
def took (d : FrameDecoder) (next : ℕ) : FrameDecoder :=
  if next = d.length then init else { d with offset := next }

/-- The loop of `drain`, for at most so many rounds. -/
def drainLoop : ℕ → FrameDecoder → Drained
  | 0, d => ⟨[], none, d⟩
  | fuel + 1, d =>
    if d.length - d.offset < 5 then ⟨[], none, d⟩
    else
      let byte (i : ℕ) : Byte := (d.buf[d.offset + i]?).getD 0
      match frameType? (byte 0) with
      | none => ⟨[], some (byte 0), d⟩
      | some type =>
        let total := 5 + payloadLength (byte 1) (byte 2) (byte 3) (byte 4)
        if d.length - d.offset < total then ⟨[], none, d⟩
        else
          let payload := (d.buf.take (d.offset + total)).drop (d.offset + 5)
          let drained := drainLoop fuel (d.took (d.offset + total))
          { drained with frames := (type, payload) :: drained.frames }

/-- Each round reads at least a header. -/
def drain (d : FrameDecoder) : Drained := drainLoop (d.length + 1) d

def push (d : FrameDecoder) (chunk : List Byte) : Drained :=
  if chunk.length = 0 then ⟨[], none, d⟩ else (d.append chunk).drain

/-- What has been handed out by a number of pushes, and the byte that each of them has thrown for. -/
structure Pushed where
  frames : List Frame
  failures : List (Option Byte)
  decoder : FrameDecoder
  deriving DecidableEq

/-- Chunks are pushed one after the other, also after one of them has thrown. -/
def pushes (chunks : List (List Byte)) : Pushed :=
  chunks.foldl (fun p chunk ↦
    let drained := p.decoder.push chunk
    ⟨p.frames ++ drained.frames, p.failures ++ [drained.unknown], drained.decoder⟩) ⟨[], [], init⟩

/-! ## The unread bytes -/

structure Valid (d : FrameDecoder) : Prop where
  offset : d.offset ≤ d.length
  length : d.length ≤ d.buf.length

def unread (d : FrameDecoder) : List Byte := (d.buf.take d.length).drop d.offset

variable {d : FrameDecoder}

theorem Valid.length_unread (h : d.Valid) : d.unread.length = d.length - d.offset := by
  rw [unread, List.length_drop, List.length_take, min_eq_left h.length]

theorem Valid.finished_iff (h : d.Valid) : d.finished = true ↔ d.unread = [] := by
  have := h.offset
  rw [finished, decide_eq_true_iff, ← List.length_eq_zero_iff, h.length_unread]
  omega

theorem valid_init : init.Valid := ⟨le_rfl, le_rfl⟩

theorem length_overwrite {buf bytes : List Byte} {start : ℕ} (h : start + bytes.length ≤ buf.length) :
    (overwrite buf start bytes).length = buf.length := by
  rw [overwrite, List.length_append, List.length_append, List.length_take, List.length_drop]
  omega

/-- What is written lies behind what was there. -/
theorem take_overwrite {buf : List Byte} (bytes : List Byte) {start : ℕ} (h : start ≤ buf.length) :
    (overwrite buf start bytes).take (start + bytes.length) = buf.take start ++ bytes := by
  rw [overwrite, List.take_append_of_le_length]
  · rw [List.take_of_length_le]
    rw [List.length_append, List.length_take, min_eq_left h]
  · rw [List.length_append, List.length_take, min_eq_left h]

/-- **An append puts the chunk behind the unread bytes**, wherever it finds the room. -/
theorem append_spec (h : d.Valid) (chunk : List Byte) :
    (d.append chunk).Valid ∧ (d.append chunk).unread = d.unread ++ chunk := by
  -- with room for the chunk behind the unread bytes
  have hroom : ∀ d : FrameDecoder, d.Valid → d.length + chunk.length ≤ d.buf.length →
      let d' : FrameDecoder := { d with buf := overwrite d.buf d.length chunk, length := d.length + chunk.length }
      d'.Valid ∧ d'.unread = d.unread ++ chunk := by
    intro d h hle d'
    refine ⟨⟨h.offset.trans (Nat.le_add_right _ _), hle.trans_eq (length_overwrite hle).symm⟩, ?_⟩
    change ((overwrite d.buf d.length chunk).take (d.length + chunk.length)).drop d.offset = _
    rw [take_overwrite _ h.length, List.drop_append_of_le_length]
    · rfl
    · rw [List.length_take, min_eq_left h.length]
      exact h.offset
  -- with the unread bytes at the front of a buffer that is large enough
  have hmoved : ∀ buf : List Byte, d.length - d.offset + chunk.length ≤ buf.length →
      let d' : FrameDecoder := ⟨overwrite buf 0 d.unread, 0, d.length - d.offset⟩
      d'.Valid ∧ d'.unread = d.unread ∧ d'.length + chunk.length ≤ d'.buf.length := by
    intro buf hle d'
    have hlength : (overwrite buf 0 d.unread).length = buf.length := by
      apply length_overwrite
      rw [h.length_unread]
      omega
    refine ⟨⟨Nat.zero_le _, ?_⟩, ?_, hle.trans_eq hlength.symm⟩
    · change d.length - d.offset ≤ (overwrite buf 0 d.unread).length
      omega
    · change (overwrite buf 0 d.unread).take (d.length - d.offset) = d.unread
      have htake := take_overwrite d.unread (Nat.zero_le buf.length)
      rw [Nat.zero_add, h.length_unread] at htake
      rw [htake, List.take_zero, List.nil_append]
  rw [append]
  simp only
  split_ifs with hfull hlarge
  · obtain ⟨hvalid, hunread, hle⟩ := hmoved (List.replicate (max (d.length - d.offset + chunk.length)
      (d.buf.length * 2)) 0) (by rw [List.length_replicate]; exact le_max_left _ _)
    rw [← hunread]
    exact hroom _ hvalid hle
  · obtain ⟨hvalid, hunread, hle⟩ := hmoved d.buf (Nat.le_of_not_lt hlarge)
    rw [← hunread]
    exact hroom _ hvalid hle
  · exact hroom d h (Nat.le_of_not_lt hfull)

/-! ## One header -/

/-- The shifted bytes have no bit in common. -/
theorem payloadLength_eq (b1 b2 b3 b4 : Byte) :
    payloadLength b1 b2 b3 b4 = b1.val * 16777216 + b2.val * 65536 + b3.val * 256 + b4.val := by
  have h1 := b1.isLt
  have h2 := b2.isLt
  have h3 := b3.isLt
  have h4 := b4.isLt
  have hshift : ∀ n i, n < 256 → i ≤ 24 → (BitVec.ofNat 32 n <<< i).toNat = n <<< i := by
    intro n i hn hi
    have hmod : n % 2 ^ 32 = n := Nat.mod_eq_of_lt (by omega)
    rw [BitVec.toNat_shiftLeft, BitVec.toNat_ofNat, hmod, Nat.shiftLeft_eq]
    apply Nat.mod_eq_of_lt
    calc n * 2 ^ i < 2 ^ 8 * 2 ^ i := Nat.mul_lt_mul_of_pos_right (by omega) (Nat.two_pow_pos i)
      _ = 2 ^ (8 + i) := (Nat.pow_add 2 8 i).symm
      _ ≤ 2 ^ 32 := Nat.pow_le_pow_right (by omega) (by omega)
  have hadd : ∀ a b c i, c = a * 2 ^ i → b < 2 ^ i → c ||| b = c + b := by
    rintro a b c i rfl hb
    rw [← Nat.shiftLeft_eq, Nat.shiftLeft_add_eq_or_of_lt hb]
  rw [payloadLength, BitVec.toNat_or, BitVec.toNat_or, BitVec.toNat_or, hshift _ 24 h1 le_rfl,
    hshift _ 16 h2 (by omega), hshift _ 8 h3 (by omega), BitVec.toNat_ofNat, Nat.mod_eq_of_lt (by omega),
    Nat.shiftLeft_eq, Nat.shiftLeft_eq, Nat.shiftLeft_eq]
  rw [hadd b1.val (b2.val * 2 ^ 16) _ 24 rfl (by omega),
    hadd (b1.val * 2 ^ 8 + b2.val) (b3.val * 2 ^ 8) _ 16 (by ring) (by omega),
    hadd (b1.val * 2 ^ 16 + b2.val * 2 ^ 8 + b3.val) b4.val _ 8 (by ring) (by omega)]
  norm_num

theorem front_cons (b b1 b2 b3 b4 : Byte) (rest : List Byte) :
    front (b :: b1 :: b2 :: b3 :: b4 :: rest) =
      match frameType? b with
      | none => .unknown b
      | some type =>
        if rest.length < payloadLength b1 b2 b3 b4 then .incomplete
        else .frame type (rest.take (payloadLength b1 b2 b3 b4)) (rest.drop (payloadLength b1 b2 b3 b4)) := by
  rw [payloadLength_eq]
  rfl

/-- A header read by its positions, as the decoder does it. -/
theorem front_eq (bytes : List Byte) :
    front bytes =
      if bytes.length < 5 then .incomplete
      else
        let byte (i : ℕ) : Byte := (bytes[i]?).getD 0
        match frameType? (byte 0) with
        | none => .unknown (byte 0)
        | some type =>
          let total := 5 + payloadLength (byte 1) (byte 2) (byte 3) (byte 4)
          if bytes.length < total then .incomplete
          else .frame type ((bytes.take total).drop 5) (bytes.drop total) := by
  rcases bytes with _ | ⟨b, _ | ⟨b1, _ | ⟨b2, _ | ⟨b3, _ | ⟨b4, rest⟩⟩⟩⟩⟩
  iterate 5 simp [front]
  have hlong : ¬(b :: b1 :: b2 :: b3 :: b4 :: rest).length < 5 := by
    simp only [List.length_cons]
    omega
  rw [if_neg hlong, front_cons]
  simp only [List.getElem?_cons_zero, List.getElem?_cons_succ, Option.getD_some]
  generalize payloadLength b1 b2 b3 b4 = len
  cases frameType? b with
  | none => rfl
  | some type =>
    simp only
    have htake : ((b :: b1 :: b2 :: b3 :: b4 :: rest).take (5 + len)).drop 5 = rest.take len := by
      rw [Nat.add_comm 5 len]
      rfl
    have hdrop : (b :: b1 :: b2 :: b3 :: b4 :: rest).drop (5 + len) = rest.drop len := by
      rw [Nat.add_comm 5 len]
      rfl
    rw [htake, hdrop]
    refine if_congr ?_ rfl rfl
    simp only [List.length_cons]
    omega

/-! ## All headers -/

theorem Valid.getD_unread (h : d.Valid) {i : ℕ} (hi : i < d.unread.length) :
    (d.buf[d.offset + i]?).getD 0 = (d.unread[i]?).getD 0 := by
  rw [h.length_unread] at hi
  rw [unread, List.getElem?_drop, List.getElem?_take_of_lt (by omega)]

theorem Valid.payload_eq (h : d.Valid) {total : ℕ} (htotal : total ≤ d.unread.length) :
    (d.buf.take (d.offset + total)).drop (d.offset + 5) = (d.unread.take total).drop 5 := by
  have hoffset := h.offset
  rw [h.length_unread] at htotal
  rw [unread, List.take_drop, List.take_take, min_eq_left (by omega), List.drop_drop]

theorem Valid.took (h : d.Valid) {total : ℕ} (htotal : total ≤ d.unread.length) :
    (d.took (d.offset + total)).Valid ∧ (d.took (d.offset + total)).unread = d.unread.drop total := by
  have hoffset := h.offset
  have hlength := h.length_unread
  rw [FrameDecoder.took]
  split_ifs with hall
  · refine ⟨valid_init, ?_⟩
    rw [List.drop_of_length_le (by omega)]
    rfl
  · refine ⟨⟨?_, h.length⟩, ?_⟩
    · change d.offset + total ≤ d.length
      omega
    · rw [unread, unread, List.drop_drop]

/-- **The loop reads the frames of the unread bytes.** -/
theorem drainLoop_spec : ∀ fuel (d : FrameDecoder), d.Valid → d.unread.length < fuel →
    (drainLoop fuel d).frames = (parseWire d.unread).frames ∧
    (drainLoop fuel d).unknown = (parseWire d.unread).unknown ∧ (drainLoop fuel d).decoder.Valid ∧
    (drainLoop fuel d).decoder.unread = (parseWire d.unread).unread := by
  intro fuel
  induction fuel with
  | zero => exact fun _ _ hfuel ↦ absurd hfuel (Nat.not_lt_zero _)
  | succ fuel ih =>
    intro d h hfuel
    have hfront := front_eq d.unread
    have hstop : front d.unread = .incomplete → (⟨[], none, d⟩ : Drained).frames = (parseWire d.unread).frames ∧
        (⟨[], none, d⟩ : Drained).unknown = (parseWire d.unread).unknown ∧ d.Valid ∧
        d.unread = (parseWire d.unread).unread := by
      intro hincomplete
      rw [parseWire_incomplete hincomplete]
      exact ⟨rfl, rfl, h, rfl⟩
    rw [drainLoop, ← h.length_unread]
    split_ifs with hshort
    · rw [if_pos hshort] at hfront
      exact hstop hfront
    · rw [if_neg hshort] at hfront
      have hbyte : ∀ i < 5, (d.buf[d.offset + i]?).getD 0 = (d.unread[i]?).getD 0 :=
        fun i hi ↦ h.getD_unread (by omega)
      simp only [hbyte 0 (by omega), hbyte 1 (by omega), hbyte 2 (by omega), hbyte 3 (by omega),
        hbyte 4 (by omega)]
      simp only at hfront
      match htype : frameType? ((d.unread[0]?).getD 0) with
      | none =>
        rw [htype] at hfront
        rw [parseWire_unknown hfront]
        exact ⟨rfl, rfl, h, rfl⟩
      | some type =>
        rw [htype] at hfront
        simp only at hfront ⊢
        generalize 5 + payloadLength ((d.unread[1]?).getD 0) ((d.unread[2]?).getD 0) ((d.unread[3]?).getD 0)
          ((d.unread[4]?).getD 0) = total at hfront ⊢
        split_ifs at hfront ⊢ with hpart
        · exact hstop hfront
        · have hle := Nat.le_of_not_lt hpart
          obtain ⟨hvalid, hunread⟩ := h.took hle
          have hless : (d.took (d.offset + total)).unread.length < fuel := by
            have := lt_of_front_frame hfront
            rw [hunread]
            omega
          obtain ⟨hframes, hunknown, hvalid, hrest⟩ := ih _ hvalid hless
          rw [hunread] at hframes hunknown hrest
          rw [parseWire_frame hfront, ← h.payload_eq hle]
          exact ⟨congrArg _ hframes, hunknown, hvalid, hrest⟩

theorem drain_spec (h : d.Valid) : d.drain.frames = (parseWire d.unread).frames ∧
    d.drain.unknown = (parseWire d.unread).unknown ∧ d.drain.decoder.Valid ∧
    d.drain.decoder.unread = (parseWire d.unread).unread := by
  apply drainLoop_spec _ d h
  rw [h.length_unread]
  omega

end FrameDecoder

/-! ## More bytes -/

theorem front_append_frame {bytes payload rest : List Byte} {type : FrameType}
    (h : front bytes = .frame type payload rest) (more : List Byte) :
    front (bytes ++ more) = .frame type payload (rest ++ more) := by
  match bytes with
  | [] | [_] | [_, _] | [_, _, _] | [_, _, _, _] => exact nomatch h
  | b :: b1 :: b2 :: b3 :: b4 :: tail =>
    rw [FrameDecoder.front_cons] at h
    change front (b :: b1 :: b2 :: b3 :: b4 :: (tail ++ more)) = _
    rw [FrameDecoder.front_cons]
    generalize payloadLength b1 b2 b3 b4 = len at h ⊢
    match htype : frameType? b with
    | none =>
      rw [htype] at h
      exact nomatch h
    | some type' =>
      rw [htype] at h
      simp only at h ⊢
      split_ifs at h with hshort
      obtain ⟨rfl, rfl, rfl⟩ := Front.frame.inj h
      have hle := Nat.le_of_not_lt hshort
      have hlong : ¬(tail ++ more).length < len := by
        rw [List.length_append]
        omega
      rw [if_neg hlong, List.take_append_of_le_length hle, List.drop_append_of_le_length hle]

theorem front_append_unknown {bytes : List Byte} {type : Byte} (h : front bytes = .unknown type) (more : List Byte) :
    front (bytes ++ more) = .unknown type := by
  match bytes with
  | [] | [_] | [_, _] | [_, _, _] | [_, _, _, _] => exact nomatch h
  | b :: b1 :: b2 :: b3 :: b4 :: tail =>
    rw [FrameDecoder.front_cons] at h
    change front (b :: b1 :: b2 :: b3 :: b4 :: (tail ++ more)) = _
    rw [FrameDecoder.front_cons]
    match htype : frameType? b with
    | none =>
      rw [htype] at h
      exact h
    | some type' =>
      rw [htype] at h
      simp only at h
      split_ifs at h

/-- **What follows is read with what has been left unread.** -/
theorem parseWire_append (bytes more : List Byte) :
    parseWire (bytes ++ more) =
      { parseWire ((parseWire bytes).unread ++ more) with
        frames := (parseWire bytes).frames ++ (parseWire ((parseWire bytes).unread ++ more)).frames } := by
  induction hlength : bytes.length using Nat.strong_induction_on generalizing bytes with
  | _ n ih =>
    match hfront : front bytes with
    | .incomplete =>
      rw [parseWire_incomplete hfront]
      rfl
    | .unknown type =>
      rw [parseWire_unknown hfront]
      rfl
    | .frame type payload rest =>
      have hshorter := lt_of_front_frame hfront
      have hrest := ih rest.length (by omega) rest rfl
      rw [parseWire_frame hfront, parseWire_frame (front_append_frame hfront more), hrest]
      rfl

/-- What has been left unread holds no frame. -/
theorem parseWire_unread (bytes : List Byte) : parseWire (parseWire bytes).unread =
    ⟨[], (parseWire bytes).unread, (parseWire bytes).unknown⟩ := by
  have happend := parseWire_append bytes []
  rw [List.append_nil, List.append_nil] at happend
  generalize parseWire (parseWire bytes).unread = parsed at happend ⊢
  have hframes := congrArg ParsedWire.frames happend
  have hunread := congrArg ParsedWire.unread happend
  have hunknown := congrArg ParsedWire.unknown happend
  simp only at hframes hunread hunknown
  rw [hunread, hunknown, ← List.self_eq_append_right.mp hframes]

/-- A byte that is no frame type stops the reading for good. -/
theorem unknown_append {bytes : List Byte} {type : Byte} (h : (parseWire bytes).unknown = some type) (more : List Byte) :
    (parseWire (bytes ++ more)).unknown = some type := by
  rw [parseWire_append]
  have hparsed := parseWire_unread bytes
  rw [h] at hparsed
  match hfront : front (parseWire bytes).unread with
  | .incomplete =>
    rw [parseWire_incomplete hfront] at hparsed
    exact nomatch (ParsedWire.mk.inj hparsed).2.2
  | .unknown type' =>
    rw [parseWire_unknown hfront] at hparsed
    rw [parseWire_unknown (front_append_unknown hfront more)]
    exact (ParsedWire.mk.inj hparsed).2.2
  | .frame type' payload rest =>
    rw [parseWire_frame hfront] at hparsed
    exact nomatch (ParsedWire.mk.inj hparsed).1

theorem parseWire_encoded (frames : List Frame) (h : ∀ frame ∈ frames, frame.2.length < 2 ^ 32) :
    parseWire (frames.flatMap fun frame ↦ encodeFrame frame.1 frame.2) = ⟨frames, [], none⟩ := by
  induction frames with
  | nil => exact parseWire_incomplete rfl
  | cons frame frames ih =>
    rw [List.flatMap_cons, parseWire_frame (front_encodeFrame frame.1 (h frame List.mem_cons_self) _),
      ih fun frame hmem ↦ h frame (List.mem_cons_of_mem _ hmem)]

/-! ## Chunks -/

namespace FrameDecoder

theorem pushes_concat (chunks : List (List Byte)) (chunk : List Byte) :
    pushes (chunks ++ [chunk]) =
      ⟨(pushes chunks).frames ++ ((pushes chunks).decoder.push chunk).frames,
        (pushes chunks).failures ++ [((pushes chunks).decoder.push chunk).unknown],
        ((pushes chunks).decoder.push chunk).decoder⟩ := by
  rw [pushes, List.foldl_concat]
  rfl

/-- What a push hands out, and whether it throws, when the decoder has read the bytes before. -/
theorem push_spec {d : FrameDecoder} (h : d.Valid) {bytes : List Byte} (hbytes : d.unread = (parseWire bytes).unread)
    (chunk : List Byte) :
    (parseWire bytes).frames ++ (d.push chunk).frames = (parseWire (bytes ++ chunk)).frames ∧
    (d.push chunk).unknown = (if chunk = [] then none else (parseWire (bytes ++ chunk)).unknown) ∧
    (d.push chunk).decoder.Valid ∧ (d.push chunk).decoder.unread = (parseWire (bytes ++ chunk)).unread := by
  rw [push]
  by_cases hempty : chunk = []
  · subst hempty
    rw [if_pos List.length_nil, if_pos rfl, List.append_nil, List.append_nil]
    exact ⟨rfl, rfl, h, hbytes⟩
  · rw [if_neg (mt List.length_eq_zero_iff.mp hempty), if_neg hempty]
    obtain ⟨hvalid, hunread⟩ := append_spec h chunk
    obtain ⟨hframes, hunknown, hvalid, hrest⟩ := drain_spec hvalid
    rw [hunread, hbytes] at hframes hunknown hrest
    rw [parseWire_append bytes chunk]
    exact ⟨congrArg _ hframes, hunknown, hvalid, hrest⟩

/-- **A push goes on where the bytes before it end.** -/
theorem pushes_spec (chunks : List (List Byte)) :
    (pushes chunks).frames = (parseWire chunks.flatten).frames ∧ (pushes chunks).decoder.Valid ∧
    (pushes chunks).decoder.unread = (parseWire chunks.flatten).unread := by
  induction chunks using List.reverseRecOn with
  | nil =>
    rw [List.flatten_nil, parseWire_incomplete rfl]
    exact ⟨rfl, valid_init, rfl⟩
  | append_singleton chunks chunk ih =>
    obtain ⟨hframes, hvalid, hunread⟩ := ih
    obtain ⟨hpushed, -, hvalid, hrest⟩ := push_spec hvalid hunread chunk
    rw [pushes_concat, List.flatten_append, List.flatten_singleton]
    refine ⟨?_, hvalid, hrest⟩
    rw [← hpushed, hframes]

/-- Which pushes throw. -/
theorem failures_concat (chunks : List (List Byte)) (chunk : List Byte) :
    (pushes (chunks ++ [chunk])).failures = (pushes chunks).failures ++
      [if chunk = [] then none else (parseWire (chunks ++ [chunk]).flatten).unknown] := by
  obtain ⟨-, hvalid, hunread⟩ := pushes_spec chunks
  rw [pushes_concat, (push_spec hvalid hunread chunk).2.1, List.flatten_append, List.flatten_singleton]

theorem length_failures (chunks : List (List Byte)) : (pushes chunks).failures.length = chunks.length := by
  induction chunks using List.reverseRecOn with
  | nil => rfl
  | append_singleton chunks chunk ih =>
    rw [failures_concat, List.length_append, List.length_append, ih]
    rfl

theorem getElem?_failures (chunks : List (List Byte)) (k : ℕ) : (pushes chunks).failures[k]? =
    (chunks[k]?).map fun chunk ↦
      if chunk = [] then none else (parseWire (chunks.take (k + 1)).flatten).unknown := by
  induction chunks using List.reverseRecOn with
  | nil => rfl
  | append_singleton chunks chunk ih =>
    rw [failures_concat]
    rcases Nat.lt_trichotomy k chunks.length with hlt | rfl | hgt
    · rw [List.getElem?_append_left (by rwa [length_failures]), List.getElem?_append_left hlt, ih,
        List.take_append_of_le_length hlt]
    · have hconcat : (chunks ++ [chunk]).take (chunks.length + 1) = chunks ++ [chunk] :=
        List.take_of_length_le (by rw [List.length_append, List.length_singleton])
      rw [List.getElem?_append_right (length_failures chunks).le, List.getElem?_concat_length, length_failures,
        Nat.sub_self, hconcat]
      rfl
    · rw [List.getElem?_eq_none (by rw [List.length_append, length_failures, List.length_singleton]; omega),
        List.getElem?_eq_none (by rw [List.length_append, List.length_singleton]; omega)]
      rfl

/-- Some push throws exactly if the bytes lead to one that is no frame type. -/
theorem mem_failures (chunks : List (List Byte)) (type : Byte) :
    some type ∈ (pushes chunks).failures ↔ (parseWire chunks.flatten).unknown = some type := by
  induction chunks using List.reverseRecOn with
  | nil =>
    rw [List.flatten_nil, parseWire_incomplete rfl]
    exact iff_of_false List.not_mem_nil (by simp)
  | append_singleton chunks chunk ih =>
    rw [failures_concat, List.mem_append, List.mem_singleton, ih]
    by_cases hempty : chunk = []
    · subst hempty
      rw [if_pos rfl, List.flatten_append, List.flatten_singleton, List.append_nil]
      exact or_iff_left (by simp)
    · rw [if_neg hempty]
      refine ⟨fun h ↦ ?_, fun h ↦ .inr h.symm⟩
      rcases h with h | h
      · rw [List.flatten_append]
        exact unknown_append h _
      · exact h.symm

/-- **The decoder does not see where chunks end.** After any number of pushes it has delivered the frames of all their
bytes; a push throws if the bytes up to its end lead to one that is no frame type; and the decoder is finished when these
bytes leave nothing unread. Encoded frames are delivered again, however they are cut. -/
theorem pushes_parseWire (chunks : List (List Byte)) :
    (pushes chunks).frames = (parseWire chunks.flatten).frames ∧
    (∀ type, some type ∈ (pushes chunks).failures ↔ (parseWire chunks.flatten).unknown = some type) ∧
    (∀ k, (pushes chunks).failures[k]? = (chunks[k]?).map fun chunk ↦
      if chunk = [] then none else (parseWire (chunks.take (k + 1)).flatten).unknown) ∧
    ((pushes chunks).decoder.finished = true ↔ (parseWire chunks.flatten).unread = []) ∧
    ∀ frames : List Frame, (∀ frame ∈ frames, frame.2.length < 2 ^ 32) →
      chunks.flatten = frames.flatMap (fun frame ↦ encodeFrame frame.1 frame.2) →
      (pushes chunks).frames = frames ∧ (∀ type, some type ∉ (pushes chunks).failures) ∧
        (pushes chunks).decoder.finished = true := by
  obtain ⟨hframes, hvalid, hunread⟩ := pushes_spec chunks
  have hfinished : (pushes chunks).decoder.finished = true ↔ (parseWire chunks.flatten).unread = [] := by
    rw [hvalid.finished_iff, hunread]
  refine ⟨hframes, mem_failures chunks, getElem?_failures chunks, hfinished, fun frames hlength hbytes ↦ ?_⟩
  have hparsed := parseWire_encoded frames hlength
  rw [← hbytes] at hparsed
  refine ⟨?_, fun type hmem ↦ ?_, ?_⟩
  · rw [hframes, hparsed]
  · have hunknown := (mem_failures chunks type).mp hmem
    rw [hparsed] at hunknown
    exact nomatch hunknown
  · rw [hfinished, hparsed]

/-- A header in two pieces, and a frame behind it. -/
example : (pushes [[2, 0, 0], [0, 1, 9, 3], [0, 0, 0, 0]]).frames = [(.data, [9]), (.end, [])] := by decide +kernel

end FrameDecoder

end Vibestudio.Rpc
