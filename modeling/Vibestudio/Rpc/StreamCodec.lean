import Mathlib
import Vibestudio.Js.Json
import Vibestudio.Transition.Run

/-!
# Framed streams

`decodeFramedStream` of `packages/rpc/src/protocol/streamCodec.ts`: a byte stream of HEAD, DATA, END
and ERROR frames becomes head metadata and a body.

The reading loop awaits between the chunks and between the frames of a chunk, and the caller's
abort, the consumer's cancel and the head deadline happen in between. The model is a state and a
step for each of these events, in whatever order they come, so a run is any chunking of any wire
with any interleaving. The unread bytes of the decoder are a list; where they lie in its buffer is
left out.

The body closes without an error in two places: at an END frame whose length is right, and at the
clean end of the wire. The second does not ask whether an END came, and the first does not ask for a
HEAD before it. `decodeFramedStream_complete` is about the runs in which neither matters.
-/

namespace Vibestudio.Rpc

open Js Transition

/-! ## Frames -/

inductive FrameType where
  | head
  | data
  | end
  | error
deriving DecidableEq

def FrameType.byte : FrameType → Byte
  | head => 1
  | data => 2
  | .end => 3
  | error => 4

def frameType? (b : Byte) : Option FrameType :=
  if b = 1 then some .head
  else if b = 2 then some .data
  else if b = 3 then some .end
  else if b = 4 then some .error
  else none

def encodeFrame (type : FrameType) (payload : List Byte) : List Byte :=
  let len := payload.length
  type.byte :: Fin.ofNat 256 (len / 16777216) :: Fin.ofNat 256 (len / 65536) ::
    Fin.ofNat 256 (len / 256) :: Fin.ofNat 256 len :: payload

/-- What `drain` finds at the front of the unread bytes. -/
inductive Front where
  | incomplete
  | unknown (type : Byte)
  | frame (type : FrameType) (payload rest : List Byte)
deriving DecidableEq

def front : List Byte → Front
  | b :: b1 :: b2 :: b3 :: b4 :: rest =>
    match frameType? b with
    | none => .unknown b
    | some type =>
      let len := b1.val * 16777216 + b2.val * 65536 + b3.val * 256 + b4.val
      if rest.length < len then .incomplete else .frame type (rest.take len) (rest.drop len)
  | _ => .incomplete

theorem frameType?_byte (type : FrameType) : frameType? type.byte = some type := by
  cases type <;> rfl

/-- **An encoded frame is read back**, whatever follows it. -/
theorem front_encodeFrame (type : FrameType) {payload : List Byte} (h : payload.length < 2 ^ 32)
    (rest : List Byte) : front (encodeFrame type payload ++ rest) = .frame type payload rest := by
  have hlen : payload.length / 16777216 % 256 * 16777216 + payload.length / 65536 % 256 * 65536 +
      payload.length / 256 % 256 * 256 + payload.length % 256 = payload.length := by omega
  rw [encodeFrame]
  simp only [List.cons_append, front, frameType?_byte, Fin.val_ofNat, hlen]
  rw [if_neg (by rw [List.length_append]; omega), List.take_left, List.drop_left]

/-! ## Payloads -/

/-- `value.key` of a parsed value other than null. -/
def property (value : JsData) (key : JsString) : JsData :=
  match value with
  | .obj kvs => (getProp key kvs).getD (.leaf .undefined)
  | _ => .leaf .undefined

/-- The errors of a stream: those the decoder makes, the platform's, and the ones it passes on from
outside, of type `ε`. -/
inductive StreamError (ε : Type) where
  | headTimeout (headTimeoutMs : JsNumber)
  | aborted
  | lengthMismatch (expected : JsString) (received : ℕ)
  | unknownFrame (type : Byte)
  | syntaxError
  | typeError
  | outside (error : ε)
deriving DecidableEq

/-- The text of an error made by the decoder. -/
def StreamError.message {ε : Type} : StreamError ε → Option JsString
  | .headTimeout headTimeoutMs =>
    some (lit "Streaming RPC HEAD not received within " ++
      (toStringOf (.leaf (.num headTimeoutMs))).getD [] ++ lit "ms")
  | .aborted => some (lit "Streaming RPC aborted by caller")
  | .lengthMismatch expected received =>
    some (lit "Streaming RPC body length mismatch: expected " ++ expected ++
      lit " bytes, received " ++ integerText received)
  | .unknownFrame type => some (lit "Unknown streaming RPC frame type: " ++ integerText type.val)
  | .syntaxError | .typeError | .outside _ => none

/-- What the decoder gets from outside: the platform's `TextDecoder`, and the error of an ERROR
frame as `parseErrorFrame` and `deserializeRpcFailure` restore it, or the error they throw. -/
structure Outside (ε : Type) where
  textDecode : List Byte → JsString
  remoteError : List Byte → Except ε ε

variable {ε : Type} (O : Outside ε)

def parseHeadFrame (payload : List Byte) : Option JsData := parse (O.textDecode payload)

def parseEndFrame (payload : List Byte) : Option JsData :=
  if payload.length = 0 then some (.obj [(lit "bytesIn", .leaf (.num (.ofNat 0)))])
  else parse (O.textDecode payload)

/-- The byte count an END frame declares, if it is a nonnegative safe integer. -/
def declaredBytes (bytesIn : JsData) : Option ℕ :=
  match bytesIn with
  | .leaf (.num x) =>
    match x.safeInteger? with
    | some n => if n < 0 then none else some n.toNat
    | none => none
  | _ => none

/-! ## The decoder -/

inductive HeadPromise (ε : Type) where
  | pending
  | resolved (head : JsData)
  | rejected (error : StreamError ε)
deriving DecidableEq

/-- The body stream. `bodyClosed` of the source is that the body is not open; `closed` is closing by
the decoder, `cancelled` by the consumer. -/
inductive Body (ε : Type) where
  | open
  | closed
  | errored (error : StreamError ε)
  | cancelled
deriving DecidableEq

/-- Where the reading loop is. -/
inductive Phase where
  | checking
  | reading
  | draining
  | finished
deriving DecidableEq

/-- The state, with the frames handled so far as a record. -/
structure Stream (ε : Type) where
  headTimer : Option JsNumber
  head : HeadPromise ε
  headSeen : Bool
  body : Body ε
  delivered : List (List Byte)
  bodyBytesReceived : ℕ
  bodyCancelNotified : Bool
  aborted : Bool
  unread : List Byte
  phase : Phase
  frames : List (FrameType × List Byte)
deriving DecidableEq

namespace Stream

def resolveHead (s : Stream ε) (value : JsData) : Stream ε :=
  { s with
    headTimer := none
    head := match s.head with
      | .pending => .resolved value
      | head => head }

def rejectHead (s : Stream ε) (error : StreamError ε) : Stream ε :=
  { s with
    headTimer := none
    head := match s.head with
      | .pending => .rejected error
      | head => head }

def bodyClosed (s : Stream ε) : Bool :=
  match s.body with
  | .open => false
  | _ => true

def closeBody (s : Stream ε) : Stream ε := if s.bodyClosed then s else { s with body := .closed }

def errorBody (s : Stream ε) (error : StreamError ε) : Stream ε :=
  if s.bodyClosed then s else { s with body := .errored error }

/-- The `catch` and the end of the loop. -/
def fail (s : Stream ε) (error : StreamError ε) : Stream ε :=
  { (if s.headSeen then s.errorBody error else s.rejectHead error) with phase := .finished }

def onHead (s : Stream ε) (payload : List Byte) : Stream ε :=
  let s := { s with headSeen := true }
  match parseHeadFrame O payload with
  | some head => s.resolveHead head
  | none => s.rejectHead .syntaxError

/-- The bytes are counted first; enqueuing throws unless the stream is open. -/
def onData (s : Stream ε) (payload : List Byte) : Stream ε :=
  let s := { s with bodyBytesReceived := s.bodyBytesReceived + payload.length }
  if s.bodyClosed then s.fail .typeError else { s with delivered := s.delivered ++ [payload] }

def onEnd (s : Stream ε) (payload : List Byte) : Stream ε :=
  match parseEndFrame O payload with
  | none => s.fail .syntaxError
  | some (.leaf .null) => s.fail .typeError
  | some value =>
    let bytesIn := property value (lit "bytesIn")
    if declaredBytes bytesIn = some s.bodyBytesReceived then s.closeBody
    else
      match toStringOf bytesIn with
      | some expected => s.errorBody (.lengthMismatch expected s.bodyBytesReceived)
      | none => s.fail .typeError

def onError (s : Stream ε) (payload : List Byte) : Stream ε :=
  match O.remoteError payload with
  | .ok error => if s.headSeen then s.errorBody (.outside error) else s.rejectHead (.outside error)
  | .error thrown => s.fail (.outside thrown)

/-- A frame is taken out of the buffer. -/
def took (s : Stream ε) (type : FrameType) (payload rest : List Byte) : Stream ε :=
  { s with unread := rest, frames := s.frames ++ [(type, payload)] }

def onFrame (s : Stream ε) (type : FrameType) (payload : List Byte) : Stream ε :=
  match type with
  | .head => s.onHead O payload
  | .data => s.onData payload
  | .end => s.onEnd O payload
  | .error => s.onError O payload

end Stream

/-- What can happen next: a turn of the loop, a result of `reader.read()`, a turn of the decoder, or
something from outside the loop. -/
inductive StreamEvent (ε : Type) where
  | loop
  | chunk (value : List Byte)
  | done
  | wireError (error : ε)
  | frame
  | abort (reason : StreamError ε)
  | cancel
  | headTimeout
deriving DecidableEq

/-- The step of an event; none when the event cannot happen. -/
def Stream.step (s : Stream ε) : StreamEvent ε → Option (Stream ε)
  | .loop =>
    if s.phase ≠ .checking then none
    else if s.aborted then some (s.fail .aborted)
    else some { s with phase := .reading }
  | .chunk value =>
    if s.phase ≠ .reading then none
    else if value.length = 0 then some { s with phase := .checking }
    else some { s with unread := s.unread ++ value, phase := .draining }
  | .done =>
    if s.phase ≠ .reading then none
    else
      let s := if s.headSeen then s else s.resolveHead (.leaf .null)
      some { s.closeBody with phase := .finished }
  | .wireError error => if s.phase ≠ .reading then none else some (s.fail (.outside error))
  | .frame =>
    if s.phase ≠ .draining then none
    else
      match front s.unread with
      | .incomplete => some { s with phase := .checking }
      | .unknown type => some (s.fail (.unknownFrame type))
      | .frame type payload rest =>
        some ((s.took type payload rest).onFrame O type payload)
  | .abort reason =>
    if s.aborted = true ∨ s.phase = .finished then none
    else
      let s := { s with aborted := true }
      some ((if s.headSeen then s else s.rejectHead reason).errorBody reason)
  | .cancel =>
    match s.head, s.body with
    | .resolved _, .open => some { s with body := .cancelled, bodyCancelNotified := true }
    | .resolved _, _ => some s
    | _, _ => none
  | .headTimeout =>
    match s.headTimer with
    | some ms =>
      let s := { s with headTimer := none }
      some (if s.headSeen then s else s.rejectHead (.headTimeout ms))
    | none => none

/-- The deadline is armed when it is finite and positive. -/
def armed (headTimeoutMs : Option JsNumber) : Option JsNumber :=
  match headTimeoutMs with
  | some (.finite false mag) => if mag.mant = 0 then none else some (.finite false mag)
  | _ => none

def Stream.init (headTimeoutMs : Option JsNumber) : Stream ε :=
  { headTimer := armed headTimeoutMs
    head := .pending
    headSeen := false
    body := .open
    delivered := []
    bodyBytesReceived := 0
    bodyCancelNotified := false
    aborted := false
    unread := []
    phase := .checking
    frames := [] }

structure DecodedFramedStream (ε : Type) where
  status : JsData
  statusText : JsData
  headers : JsData
  finalUrl : JsData
  body : Body ε

/-- `value ?? fallback`. -/
def orElse (value fallback : JsData) : JsData :=
  match value with
  | .leaf .undefined | .leaf .null => fallback
  | _ => value

/-- `value || fallback`. -/
def orFalsy (value fallback : JsData) : JsData :=
  match value with
  | .leaf .undefined | .leaf .null | .leaf (.bool false) | .leaf (.str []) | .leaf (.num .nan) =>
    fallback
  | .leaf (.num (.finite _ mag)) => if mag.mant = 0 then fallback else value
  | _ => value

/-- What the function returns, once the head promise resolves. -/
def Stream.decoded (s : Stream ε) (requestedUrl : JsString) : Option (DecodedFramedStream ε) :=
  match s.head with
  | .resolved head => some
    { status := orElse (property head (lit "status")) (.leaf (.num (.ofNat 502)))
      statusText := orElse (property head (lit "statusText")) (.leaf (.str (lit "Bad Gateway")))
      headers := orElse (property head (lit "headerPairs")) (.arr [])
      finalUrl := orFalsy (property head (lit "finalUrl")) (.leaf (.str requestedUrl))
      body := s.body }
  | _ => none

/-! ## Completeness -/

/-- The payloads of the DATA frames. -/
def payloads (frames : List (FrameType × List Byte)) : List (List Byte) :=
  (frames.filter fun f ↦ f.1 = .data).map (·.2)

theorem payloads_append (l l' : List (FrameType × List Byte)) :
    payloads (l ++ l') = payloads l ++ payloads l' := by
  rw [payloads, List.filter_append, List.map_append]
  rfl

namespace Stream

def isRejected (s : Stream ε) : Bool :=
  match s.head with
  | .rejected _ => true
  | _ => false

/-- The END frame declares what has been received. -/
def lengthMatches (s : Stream ε) (payload : List Byte) : Bool :=
  match parseEndFrame O payload with
  | some value => declaredBytes (property value (lit "bytesIn")) = some s.bodyBytesReceived
  | none => false

/-- A HEAD frame first, then DATA frames, and then an END frame that declares the number of bytes
delivered. A later HEAD frame changes nothing. -/
def Complete (s : Stream ε) : Prop :=
  ∃ head mid last rest, s.frames = (.head, head) :: mid ++ (.end, last) :: rest ∧
    (∀ f ∈ mid, f.1 = .head ∨ f.1 = .data) ∧ s.delivered = payloads mid ∧
    ∃ value, parseEndFrame O last = some value ∧
      declaredBytes (property value (lit "bytesIn")) = some s.delivered.flatten.length

/-- The step does not end the body too early: the wire ends only when the body has ended, and an END
frame that would close the body comes after a HEAD frame that came first. A call that has been
rejected returns no body. -/
def endsInTime (s : Stream ε) : StreamEvent ε → Bool
  | .done => s.isRejected || s.bodyClosed
  | .frame =>
    match front s.unread with
    | .frame .end payload _ => s.isRejected || s.bodyClosed || !s.lengthMatches O payload ||
        s.frames.head?.any fun f ↦ f.1 = .head
    | _ => true
  | _ => true

/-- What holds between the statements of a step as well. -/
structure Sane (s : Stream ε) : Prop where
  received : s.bodyBytesReceived = (payloads s.frames).flatten.length
  seen : ∀ h, s.head = .resolved h → s.headSeen = true ∨ s.phase = .finished
  complete : s.body = .closed → s.isRejected = false → s.Complete O

/-- **The invariant**: while the body is open nothing but HEAD and DATA has come, and a closed body
is complete. -/
structure Inv (s : Stream ε) : Prop extends Sane O s where
  clean : s.bodyClosed = false → s.isRejected = false →
    (∀ f ∈ s.frames, f.1 = .head ∨ f.1 = .data) ∧ s.delivered = payloads s.frames

/-- The second state gives up the first: the call is rejected or the body is not open. -/
structure GivesUp (t r : Stream ε) : Prop where
  frames_eq : r.frames = t.frames
  delivered_eq : r.delivered = t.delivered
  received_eq : r.bodyBytesReceived = t.bodyBytesReceived
  seen_eq : r.headSeen = t.headSeen
  phase : r.phase = t.phase ∨ r.phase = .finished
  closed : r.body = .closed → t.body = .closed
  rejected : t.isRejected = true → r.isRejected = true
  resolved : ∀ h, r.head = .resolved h → t.head = .resolved h
  gives_up : r.isRejected = true ∨ r.bodyClosed = true

variable {O}

/-- Frames after the END change nothing. -/
theorem Complete.append {s t : Stream ε} (h : s.Complete O) (extra : List (FrameType × List Byte))
    (hframes : t.frames = s.frames ++ extra) (hdelivered : t.delivered = s.delivered) :
    t.Complete O := by
  obtain ⟨head, mid, last, rest, hf, hmid, hdel, hend⟩ := h
  exact ⟨head, mid, last, rest ++ extra, by simp [hframes, hf], hmid, by rw [hdelivered, hdel],
    by rwa [hdelivered]⟩

theorem isRejected_iff {s : Stream ε} : s.isRejected = true ↔ ∃ e, s.head = .rejected e := by
  rw [isRejected]
  cases s.head <;> simp

theorem GivesUp.inv {t r : Stream ε} (h : GivesUp t r) (ht : Sane O t) : Inv O r where
  received := by rw [h.received_eq, h.frames_eq, ht.received]
  seen := fun v hv ↦ by
    rcases h.phase with hp | hp
    · rw [h.seen_eq, hp]
      exact ht.seen v (h.resolved v hv)
    · exact Or.inr hp
  complete := fun hc hr ↦ by
    have htr : t.isRejected = false := by
      by_contra hne
      rw [h.rejected (by simpa using hne)] at hr
      exact absurd hr (by simp)
    exact (ht.complete (h.closed hc) htr).append []
      (by rw [h.frames_eq, List.append_nil]) h.delivered_eq
  clean := fun ho hr ↦ by
    rcases h.gives_up with hg | hg
    · rw [hg] at hr
      exact absurd hr (by simp)
    · rw [hg] at ho
      exact absurd ho (by simp)

theorem givesUp_errorBody (t : Stream ε) (error : StreamError ε) :
    GivesUp t (t.errorBody error) := by
  constructor <;> cases h : t.body <;> simp [errorBody, h, isRejected, bodyClosed]

/-- Rejecting the head gives up a call whose head has not been resolved. -/
theorem givesUp_rejectHead {t : Stream ε} (h : ∀ v, t.head ≠ .resolved v) (error : StreamError ε) :
    GivesUp t (t.rejectHead error) := by
  cases hh : t.head with
  | resolved v => exact absurd hh (h v)
  | pending => constructor <;> simp [rejectHead, hh, isRejected]
  | rejected e => constructor <;> simp [rejectHead, hh, isRejected]

theorem givesUp_fail {t : Stream ε} (h : ∀ v, t.head = .resolved v → t.headSeen = true)
    (error : StreamError ε) : GivesUp t (t.fail error) := by
  have hfinish : ∀ {r : Stream ε}, GivesUp t r → GivesUp t { r with phase := .finished } :=
    fun hr ↦ ⟨hr.frames_eq, hr.delivered_eq, hr.received_eq, hr.seen_eq, Or.inr rfl, hr.closed,
      hr.rejected, hr.resolved, hr.gives_up⟩
  rw [fail]
  split_ifs with hseen
  · exact hfinish (givesUp_errorBody t error)
  · exact hfinish (givesUp_rejectHead (fun v hv ↦ hseen (h v hv)) error)

/-- A frame that is not DATA leaves a sane state sane. -/
theorem Sane.took {s : Stream ε} (h : Sane O s) {type : FrameType} (htype : type ≠ .data)
    (payload rest : List Byte) : Sane O (s.took type payload rest) where
  received := by
    rw [Stream.took, payloads_append, h.received]
    simp [payloads, htype]
  seen := h.seen
  complete := fun hc hr ↦ (h.complete hc hr).append _ rfl rfl

theorem Sane.tookData {s : Stream ε} (h : Sane O s) (payload rest : List Byte) :
    Sane O
      { s.took .data payload rest with
        bodyBytesReceived := s.bodyBytesReceived + payload.length } where
  received := by
    rw [Stream.took, payloads_append, h.received]
    simp [payloads]
  seen := h.seen
  complete := fun hc hr ↦ (h.complete hc hr).append _ rfl rfl

theorem resolved_seen {s : Stream ε} (h : Sane O s) (hphase : s.phase ≠ .finished) (v : JsData)
    (hv : s.head = .resolved v) : s.headSeen = true := (h.seen v hv).resolve_right hphase

theorem inv_onHead {s : Stream ε} (h : Inv O s) (payload rest : List Byte) :
    Inv O ((s.took .head payload rest).onHead O payload) := by
  have ht := h.toSane.took (show FrameType.head ≠ .data by simp) payload rest
  have hclean : s.bodyClosed = false → s.isRejected = false →
      (∀ f ∈ s.frames ++ [(FrameType.head, payload)], f.1 = .head ∨ f.1 = .data) ∧
        s.delivered = payloads (s.frames ++ [(.head, payload)]) := by
    intro ho hr
    obtain ⟨hf, hdel⟩ := h.clean ho hr
    refine ⟨fun f hmem ↦ ?_, ?_⟩
    · rcases List.mem_append.mp hmem with hmem | hmem
      · exact hf f hmem
      · exact Or.inl (by rw [List.mem_singleton.mp hmem])
    · rw [hdel, payloads_append]
      simp [payloads]
  -- Whether the head promise settles now or had settled before, a rejected call stays rejected.
  have hsettle : ∀ head : HeadPromise ε, (∀ e, s.head = .rejected e → head = .rejected e) →
      Inv O
        { s with
          unread := rest
          frames := s.frames ++ [(.head, payload)]
          headSeen := true
          headTimer := none
          head := head } := by
    intro head hhead
    have hrej : isRejected { s with head := head } = false → s.isRejected = false := by
      intro hr
      by_contra hne
      obtain ⟨e, he⟩ := isRejected_iff.mp (by simpa using hne)
      rw [isRejected, hhead e he] at hr
      exact absurd hr (by simp)
    exact ⟨⟨ht.received, fun _ _ ↦ Or.inl rfl, fun hc hr ↦ ht.complete hc (hrej hr)⟩,
      fun ho hr ↦ hclean ho (hrej hr)⟩
  rw [onHead]
  cases parseHeadFrame O payload with
  | none => exact hsettle (s.rejectHead .syntaxError).head fun e he ↦ by rw [rejectHead, he]
  | some value => exact hsettle (s.resolveHead value).head fun e he ↦ by rw [resolveHead, he]

theorem bodyClosed_eq_false {s : Stream ε} : s.bodyClosed = false ↔ s.body = .open := by
  rw [bodyClosed]
  cases s.body <;> simp

theorem inv_onData {s : Stream ε} (h : Inv O s) (hphase : s.phase ≠ .finished)
    (payload rest : List Byte) : Inv O ((s.took .data payload rest).onData payload) := by
  have ht := h.toSane.tookData payload rest
  rw [onData]
  split_ifs with hb
  · exact (givesUp_fail (resolved_seen ht hphase) _).inv ht
  · have hopen : s.bodyClosed = false := eq_false_of_ne_true hb
    refine ⟨⟨ht.received, ht.seen, fun hc _ ↦ ?_⟩, fun _ hr ↦ ?_⟩
    · exact absurd ((bodyClosed_eq_false.mp hopen).symm.trans hc) (by simp)
    · obtain ⟨hf, hdel⟩ := h.clean hopen hr
      refine ⟨fun f hmem ↦ ?_, ?_⟩
      · rcases List.mem_append.mp hmem with hmem | hmem
        · exact hf f hmem
        · exact Or.inr (by rw [List.mem_singleton.mp hmem])
      · change s.delivered ++ [payload] = payloads (s.frames ++ [(.data, payload)])
        rw [payloads_append, ← hdel]
        simp [payloads]

/-- Closing at an END frame that comes in time completes the body. -/
theorem inv_closeBody {s : Stream ε} (h : Inv O s) {payload rest : List Byte}
    (hmatch : s.lengthMatches O payload = true)
    (htime : s.isRejected || s.bodyClosed || !s.lengthMatches O payload ||
      s.frames.head?.any (fun f ↦ f.1 = .head)) : Inv O (s.took .end payload rest).closeBody := by
  have ht := h.toSane.took (show FrameType.end ≠ .data by simp) payload rest
  rw [closeBody]
  split_ifs with hb
  · exact ⟨ht, fun ho _ ↦ absurd (hb.symm.trans ho) (by simp)⟩
  · have hopen : s.bodyClosed = false := eq_false_of_ne_true hb
    refine ⟨⟨ht.received, ht.seen, fun _ hr ↦ ?_⟩, fun ho _ ↦ absurd ho (by simp [bodyClosed])⟩
    have hr' : s.isRejected = false := hr
    obtain ⟨hf, hdel⟩ := h.clean hopen hr'
    rw [hr', hopen, hmatch] at htime
    cases hframes : s.frames with
    | nil =>
      rw [hframes] at htime
      exact absurd htime (by simp)
    | cons f mid =>
      obtain ⟨type, head⟩ := f
      rw [hframes] at htime hf
      obtain rfl : type = .head := by simpa using htime
      have hpay : s.delivered = payloads mid := by
        rw [hdel, hframes]
        simp [payloads]
      refine ⟨head, mid, payload, [], ?_, (List.forall_mem_cons.mp hf).2, hpay, ?_⟩
      · change s.frames ++ [(.end, payload)] = _
        rw [hframes]
      · change ∃ value, parseEndFrame O payload = some value ∧
          declaredBytes (property value (lit "bytesIn")) = some s.delivered.flatten.length
        rw [lengthMatches, h.received, ← hdel] at hmatch
        split at hmatch
        · rename_i value hparse
          exact ⟨value, hparse, of_decide_eq_true hmatch⟩
        · exact absurd hmatch Bool.false_ne_true

theorem inv_onEnd {s : Stream ε} (h : Inv O s) (hphase : s.phase ≠ .finished)
    {payload rest : List Byte} (htime : s.isRejected || s.bodyClosed || !s.lengthMatches O payload ||
      s.frames.head?.any (fun f ↦ f.1 = .head)) :
    Inv O ((s.took .end payload rest).onEnd O payload) := by
  have ht := h.toSane.took (show FrameType.end ≠ .data by simp) payload rest
  have hfail : ∀ error, Inv O ((s.took .end payload rest).fail error) :=
    fun error ↦ (givesUp_fail (resolved_seen ht hphase) error).inv ht
  rw [onEnd]
  split
  · exact hfail _
  · exact hfail _
  · rename_i value _ hparse
    by_cases hlen : declaredBytes (property value (lit "bytesIn")) = some s.bodyBytesReceived
    · refine (if_pos hlen).symm ▸ inv_closeBody h ?_ htime
      rw [lengthMatches, hparse]
      exact decide_eq_true hlen
    · refine (if_neg hlen).symm ▸ ?_
      split
      · exact (givesUp_errorBody _ _).inv ht
      · exact hfail _

theorem inv_onError {s : Stream ε} (h : Inv O s) (hphase : s.phase ≠ .finished)
    (payload rest : List Byte) : Inv O ((s.took .error payload rest).onError O payload) := by
  have ht := h.toSane.took (show FrameType.error ≠ .data by simp) payload rest
  have hseen := resolved_seen ht hphase
  rw [onError]
  split
  · split_ifs with hs
    · exact (givesUp_errorBody _ _).inv ht
    · exact (givesUp_rejectHead (fun v hv ↦ hs (hseen v hv)) _).inv ht
  · exact (givesUp_fail hseen _).inv ht

theorem GivesUp.trans {t r u : Stream ε} (h : GivesUp t r) (h' : GivesUp r u) : GivesUp t u where
  frames_eq := h'.frames_eq.trans h.frames_eq
  delivered_eq := h'.delivered_eq.trans h.delivered_eq
  received_eq := h'.received_eq.trans h.received_eq
  seen_eq := h'.seen_eq.trans h.seen_eq
  phase := by
    rcases h'.phase with hp | hp
    · rw [hp]
      exact h.phase
    · exact Or.inr hp
  closed := fun hc ↦ h.closed (h'.closed hc)
  rejected := fun hr ↦ h'.rejected (h.rejected hr)
  resolved := fun v hv ↦ h.resolved v (h'.resolved v hv)
  gives_up := h'.gives_up

/-- The loop and the buffer do not matter while the loop runs. -/
theorem Inv.turn {s : Stream ε} (h : Inv O s) (hphase : s.phase ≠ .finished) (unread : List Byte)
    (phase : Phase) : Inv O { s with unread := unread, phase := phase } := by
  have hseen := resolved_seen h.toSane hphase
  exact ⟨⟨h.received, fun v hv ↦ Or.inl (hseen v hv), h.complete⟩, h.clean⟩

theorem inv_done {s : Stream ε} (h : Inv O s) (htime : s.isRejected || s.bodyClosed) :
    Inv O { (if s.headSeen then s else s.resolveHead (.leaf .null)).closeBody with
      phase := .finished } := by
  -- Settling the head keeps the body and whether the call is rejected.
  have hkeep : ∀ t : Stream ε, t.body = s.body → t.frames = s.frames → t.delivered = s.delivered →
      t.bodyBytesReceived = s.bodyBytesReceived → (s.isRejected = true → t.isRejected = true) →
      Inv O { t.closeBody with phase := .finished } := by
    intro t hbody hframes hdel hrec hrej
    have hclosed : t.bodyClosed = s.bodyClosed := by rw [bodyClosed, bodyClosed, hbody]
    rw [closeBody]
    split_ifs with hb
    · refine ⟨⟨?_, fun _ _ ↦ Or.inr rfl, fun hc hr ↦ ?_⟩, fun ho _ ↦ ?_⟩
      · change t.bodyBytesReceived = (payloads t.frames).flatten.length
        rw [hrec, hframes, h.received]
      · refine (h.complete (hbody ▸ hc) ?_).append [] ?_ hdel
        · refine eq_false_of_ne_true fun hs ↦ ?_
          exact absurd ((hrej hs).symm.trans hr) (by simp)
        · rw [List.append_nil]
          exact hframes
      · exact absurd (hb.symm.trans ho) (by simp)
    · have hs : s.isRejected = true := by
        rw [← hclosed, eq_false_of_ne_true hb, Bool.or_false] at htime
        exact htime
      have ht : t.isRejected = true := hrej hs
      refine ⟨⟨?_, fun _ _ ↦ Or.inr rfl, fun _ hr ↦ ?_⟩, fun _ hr ↦ ?_⟩
      · change t.bodyBytesReceived = (payloads t.frames).flatten.length
        rw [hrec, hframes, h.received]
      · exact absurd (ht.symm.trans hr) (by simp)
      · exact absurd (ht.symm.trans hr) (by simp)
  split_ifs with hseen
  · exact hkeep s rfl rfl rfl rfl id
  · refine hkeep _ rfl rfl rfl rfl fun hr ↦ ?_
    obtain ⟨e, he⟩ := isRejected_iff.mp hr
    exact isRejected_iff.mpr ⟨e, by rw [resolveHead, he]⟩

theorem inv_headTimeout {s : Stream ε} (h : Inv O s) (error : StreamError ε) :
    Inv O (s.rejectHead error) := by
  cases hh : s.head with
  | resolved v =>
    have hsame : s.rejectHead error = { s with headTimer := none } := by
      rw [rejectHead]
      simp only [hh]
    rw [hsame]
    exact ⟨⟨h.received, h.seen, h.complete⟩, h.clean⟩
  | pending => exact (givesUp_rejectHead (by simp [hh]) error).inv h.toSane
  | rejected e => exact (givesUp_rejectHead (by simp [hh]) error).inv h.toSane

/-- **A step that ends the body in time keeps the invariant.** -/
theorem Inv.step {s s' : Stream ε} {e : StreamEvent ε} (h : Inv O s)
    (htime : s.endsInTime O e = true) (hstep : s.step O e = some s') : Inv O s' := by
  cases e with
  | loop =>
    rw [Stream.step] at hstep
    split_ifs at hstep with hphase haborted
    · have hrun : s.phase ≠ .finished := by simp [not_not.mp hphase]
      obtain rfl := Option.some.inj hstep
      exact (givesUp_fail (resolved_seen h.toSane hrun) _).inv h.toSane
    · have hrun : s.phase ≠ .finished := by simp [not_not.mp hphase]
      obtain rfl := Option.some.inj hstep
      exact h.turn hrun s.unread .reading
  | chunk value =>
    rw [Stream.step] at hstep
    split_ifs at hstep with hphase hempty
    · have hrun : s.phase ≠ .finished := by simp [not_not.mp hphase]
      obtain rfl := Option.some.inj hstep
      exact h.turn hrun s.unread .checking
    · have hrun : s.phase ≠ .finished := by simp [not_not.mp hphase]
      obtain rfl := Option.some.inj hstep
      exact h.turn hrun (s.unread ++ value) .draining
  | done =>
    rw [Stream.step] at hstep
    split at hstep
    · exact absurd hstep (by simp)
    · obtain rfl := Option.some.inj hstep
      exact inv_done h htime
  | wireError error =>
    rw [Stream.step] at hstep
    split_ifs at hstep with hphase
    have hrun : s.phase ≠ .finished := by simp [not_not.mp hphase]
    obtain rfl := Option.some.inj hstep
    exact (givesUp_fail (resolved_seen h.toSane hrun) _).inv h.toSane
  | frame =>
    rw [Stream.step] at hstep
    split_ifs at hstep with hphase
    have hrun : s.phase ≠ .finished := by simp [not_not.mp hphase]
    cases hfront : front s.unread with
    | incomplete =>
      rw [hfront] at hstep
      obtain rfl := Option.some.inj hstep
      exact h.turn hrun s.unread .checking
    | unknown type =>
      rw [hfront] at hstep
      obtain rfl := Option.some.inj hstep
      exact (givesUp_fail (resolved_seen h.toSane hrun) _).inv h.toSane
    | frame type payload rest =>
      rw [hfront] at hstep
      obtain rfl := Option.some.inj hstep
      cases type with
      | head => exact inv_onHead h payload rest
      | data => exact inv_onData h hrun payload rest
      | «end» =>
        rw [endsInTime, hfront] at htime
        exact inv_onEnd h hrun htime
      | error => exact inv_onError h hrun payload rest
  | abort reason =>
    rw [Stream.step] at hstep
    split_ifs at hstep with hguard
    obtain ⟨-, hrun⟩ := not_or.mp hguard
    obtain rfl := Option.some.inj hstep
    have ht : Sane O { s with aborted := true } := ⟨h.received, h.seen, h.complete⟩
    have hresolved := resolved_seen ht hrun
    split_ifs with hseen
    · exact (givesUp_errorBody _ _).inv ht
    · have hreject := givesUp_rejectHead (fun v hv ↦ hseen (hresolved v hv)) reason
      exact (hreject.trans (givesUp_errorBody _ _)).inv ht
  | cancel =>
    rw [Stream.step] at hstep
    split at hstep
    · obtain rfl := Option.some.inj hstep
      exact ⟨⟨h.received, h.seen, fun hc _ ↦ absurd hc (by simp)⟩,
        fun ho _ ↦ absurd ho (by simp [bodyClosed])⟩
    · obtain rfl := Option.some.inj hstep
      exact h
    · exact absurd hstep (by simp)
  | headTimeout =>
    rw [Stream.step] at hstep
    split at hstep
    · obtain rfl := Option.some.inj hstep
      have ht : Inv O { s with headTimer := none } := ⟨⟨h.received, h.seen, h.complete⟩, h.clean⟩
      split_ifs with hseen
      · exact ht
      · exact inv_headTimeout ht _
    · exact absurd hstep (by simp)

theorem inv_init (headTimeoutMs : Option JsNumber) : Inv O (Stream.init headTimeoutMs) :=
  ⟨⟨rfl, fun _ hv ↦ absurd hv (by simp [Stream.init]), fun hc ↦ absurd hc (by simp [Stream.init])⟩,
    fun _ _ ↦ ⟨fun f hf ↦ absurd hf List.not_mem_nil, rfl⟩⟩

end Stream

variable {O}

/-- **Completeness.** In every run whose steps end the body in time, a body that has been returned
and has closed is a complete one. -/
theorem decodeFramedStream_complete {headTimeoutMs : Option JsNumber} {s : Stream ε}
    (h : Reachable (Stream.step O) (Stream.endsInTime O) (Stream.init headTimeoutMs) s)
    {requestedUrl : JsString} {d : DecodedFramedStream ε}
    (hreturned : s.decoded requestedUrl = some d) (hclosed : d.body = .closed) :
    s.Complete O := by
  have hinv := h.invariant (Stream.inv_init headTimeoutMs) fun _ _ _ hi hok hs ↦ hi.step hok hs
  rw [Stream.decoded] at hreturned
  split at hreturned
  · rename_i head hhead
    obtain rfl := Option.some.inj hreturned
    exact hinv.complete hclosed (by rw [Stream.isRejected, hhead])
  · exact absurd hreturned (by simp)

/-! ## Incomplete bodies -/

/-- An END frame that declares what has been received closes the body. -/
theorem Stream.onEnd_of_lengthMatches {s : Stream ε} {payload : List Byte}
    (h : s.lengthMatches O payload = true) : s.onEnd O payload = s.closeBody := by
  rw [Stream.lengthMatches] at h
  rw [Stream.onEnd]
  split at h
  · rename_i value hparse
    have hlen := of_decide_eq_true h
    rw [hparse]
    split
    · exact absurd ‹_› (by simp)
    · rename_i hnull
      obtain rfl := Option.some.inj hnull
      exact absurd hlen (by simp [property, declaredBytes])
    · rename_i hvalue
      obtain rfl := Option.some.inj hvalue
      exact if_pos hlen
  · exact absurd h Bool.false_ne_true

theorem Stream.Complete.exists_end {s : Stream ε} (h : s.Complete O) :
    ∃ f ∈ s.frames, f.1 = .end := by
  obtain ⟨head, mid, last, rest, hf, -⟩ := h
  exact ⟨(.end, last), by simp [hf], rfl⟩

theorem Stream.Complete.head_first {s : Stream ε} (h : s.Complete O) :
    s.frames.head?.any fun f ↦ f.1 = .head := by
  obtain ⟨head, mid, last, rest, hf, -⟩ := h
  simp [hf]

/-- **The condition is exact.** After steps in time, a step that ends the body too early closes a
body that is not complete, and does not reject the call. -/
theorem incomplete_of_not_endsInTime {headTimeoutMs : Option JsNumber} {s s' : Stream ε}
    (h : Reachable (Stream.step O) (Stream.endsInTime O) (Stream.init headTimeoutMs) s)
    {e : StreamEvent ε} (hstep : s.step O e = some s') (htime : s.endsInTime O e = false) :
    s'.body = .closed ∧ s'.isRejected = false ∧ ¬s'.Complete O := by
  have hinv := h.invariant (Stream.inv_init headTimeoutMs) fun _ _ _ hi hok hs ↦ hi.step hok hs
  cases e with
  | done =>
    rw [Stream.endsInTime, Bool.or_eq_false_iff] at htime
    obtain ⟨hr, hopen⟩ := htime
    rw [Stream.step] at hstep
    split at hstep
    · exact absurd hstep (by simp)
    obtain rfl := Option.some.inj hstep
    have hframes : ∀ f ∈ s.frames, f.1 ≠ .end := fun f hf hend ↦ by
      rcases (hinv.clean hopen hr).1 f hf with h | h <;> simp [hend] at h
    have hincomplete : ∀ t : Stream ε, t.frames = s.frames → ¬t.Complete O := fun t ht hc ↦ by
      obtain ⟨f, hf, hend⟩ := hc.exists_end
      exact hframes f (ht ▸ hf) hend
    have hkeep : (if s.headSeen then s else s.resolveHead (.leaf .null)).bodyClosed = false := by
      split_ifs <;> exact hopen
    have hrej : (if s.headSeen then s else s.resolveHead (.leaf .null)).isRejected = false := by
      split_ifs
      · exact hr
      · rw [Stream.isRejected] at hr ⊢
        rw [Stream.resolveHead]
        cases hh : s.head <;> simp_all
    refine ⟨?_, ?_, hincomplete _ ?_⟩
    · simp [Stream.closeBody, hkeep]
    · simpa [Stream.closeBody, hkeep, Stream.isRejected] using hrej
    · rw [Stream.closeBody, if_neg (by simp [hkeep])]
      split_ifs <;> rfl
  | frame =>
    rw [Stream.step] at hstep
    split at hstep
    · exact absurd hstep (by simp)
    rw [Stream.endsInTime] at htime
    split at htime
    · rename_i payload rest hfront
      rw [hfront] at hstep
      obtain rfl := Option.some.inj hstep
      simp only [Bool.or_eq_false_iff] at htime
      obtain ⟨⟨⟨hr, hopen⟩, hmatch⟩, hfirst⟩ := htime
      have hclose : (s.took .end payload rest).onEnd O payload
          = { s.took .end payload rest with body := .closed } := by
        have hmatch' : (s.took .end payload rest).lengthMatches O payload = true := by
          rw [Bool.not_eq_false'] at hmatch
          exact hmatch
        rw [Stream.onEnd_of_lengthMatches hmatch', Stream.closeBody, if_neg]
        exact fun hc ↦ absurd (hc.symm.trans hopen) (by simp)
      refine ⟨?_, ?_, fun hc ↦ ?_⟩
      · exact congrArg Stream.body hclose
      · exact (congrArg Stream.isRejected hclose).trans hr
      · have hhead := hc.head_first
        rw [Stream.onFrame, hclose] at hhead
        cases hf : s.frames with
        | nil => simp [Stream.took, hf] at hhead
        | cons f mid =>
          rw [hf] at hfirst
          simp [Stream.took, hf] at hhead hfirst
          exact hfirst hhead
    · exact absurd htime (by simp)
  | loop => exact absurd htime (by simp [Stream.endsInTime])
  | chunk => exact absurd htime (by simp [Stream.endsInTime])
  | wireError => exact absurd htime (by simp [Stream.endsInTime])
  | abort => exact absurd htime (by simp [Stream.endsInTime])
  | cancel => exact absurd htime (by simp [Stream.endsInTime])
  | headTimeout => exact absurd htime (by simp [Stream.endsInTime])

/-! ## Two runs -/

/-- A decoder for ASCII texts, and no error to restore. -/
def asciiOutside : Outside Unit :=
  { textDecode := fun bytes ↦ bytes.map fun b ↦ Fin.ofNat 65536 b.val
    remoteError := fun _ ↦ .ok () }

/-- HEAD, two bytes of DATA, and the END that declares them, in one chunk. -/
def completeRun : List (StreamEvent Unit) :=
  [.loop, .chunk (encodeFrame .head (utf8Encode (lit "\x7b\x7d")) ++ encodeFrame .data [1, 2] ++
    encodeFrame .end (utf8Encode (lit "\x7b\"bytesIn\":2\x7d"))), .frame, .frame, .frame]

/-- HEAD and one byte of DATA, and then the clean end of the wire. -/
def truncatedRun : List (StreamEvent Unit) :=
  [.loop, .chunk (encodeFrame .head (utf8Encode (lit "\x7b\x7d")) ++ encodeFrame .data [1]), .frame,
    .frame, .frame, .loop, .done]

theorem decodeFramedStream_complete_of_completeRun :
    ∃ s, Reachable (Stream.step asciiOutside) (Stream.endsInTime asciiOutside) (Stream.init none) s ∧
      s.delivered = [[1, 2]] ∧ s.Complete asciiOutside := by
  have hrun : ((run (Stream.step asciiOutside) (Stream.endsInTime asciiOutside) (Stream.init none)
      completeRun).bind fun s ↦ (s.decoded []).map fun d ↦ (s.delivered, d.body))
      = some ([[1, 2]], .closed) := by decide +kernel
  obtain ⟨s, hs, hd⟩ := Option.bind_eq_some_iff.mp hrun
  obtain ⟨d, hd, heq⟩ := Option.map_eq_some_iff.mp hd
  obtain ⟨hdelivered, hbody⟩ := Prod.mk.inj heq
  have hreach := Reachable.init.run hs
  exact ⟨s, hreach, hdelivered, decodeFramedStream_complete hreach hd hbody⟩

/-- A wire that ends before END leaves a body that has closed without an error. -/
theorem decodeFramedStream_not_complete :
    ¬∀ s : Stream Unit, Reachable (Stream.step asciiOutside) anyStep (Stream.init none) s →
      ∀ d, s.decoded [] = some d → d.body = .closed → s.Complete asciiOutside := by
  intro hclaim
  have hrun : ((run (Stream.step asciiOutside) anyStep (Stream.init none) truncatedRun).bind fun s ↦
      (s.decoded []).map fun d ↦ (s.frames.all fun f ↦ f.1 ≠ .end, d.body))
      = some (true, .closed) := by decide +kernel
  obtain ⟨s, hs, hd⟩ := Option.bind_eq_some_iff.mp hrun
  obtain ⟨d, hd, heq⟩ := Option.map_eq_some_iff.mp hd
  obtain ⟨hframes, hbody⟩ := Prod.mk.inj heq
  obtain ⟨f, hf, hend⟩ := (hclaim s (Reachable.init.run hs) d hd hbody).exists_end
  exact absurd hend (by simpa using List.all_eq_true.mp hframes f hf)

end Vibestudio.Rpc
