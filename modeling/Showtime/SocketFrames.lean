import Mathlib.Data.List.Basic
/-!
# Frames of the stage sockets

`sock_recv` of the server and of the client takes the frames of a message apart,
one after the other. The frames come from the network, in any number and of any
size. The verifier of messages and the cast of a text to a UUID are parameters.
-/

namespace Showtime.SocketFrames

abbrev Frame := List UInt8

/-- A `boost::uuids::uuid`, which is also what a message id is: 16 bytes. -/
abbrev Uuid := Vector UInt8 16

/-- How `sock_recv` goes wrong. -/
inductive SocketFault
  /-- `zframe_data` or `zframe_size` of a frame that was not there. -/
  | missingFrame
  /-- `memcpy` beyond the end of the message id. -/
  | overflow
  /-- `boost::bad_lexical_cast`. -/
  | badLexicalCast
  deriving DecidableEq, Repr

/-- What `msg->init` gets, for the one message that is dispatched. -/
structure StageMessage where
  payload : Frame
  clientUUID : Uuid
  msgID : Uuid
  deriving DecidableEq, Repr

/-- What comes of some frames: the messages that are dispatched, and the
`Signal_ERR_MSG_MALFORMED` signals, each with its message id and its client. -/
structure Received where
  dispatched : List StageMessage := []
  malformed : List (Uuid × Uuid) := []
  deriving DecidableEq, Repr

/-- `zframe_data`, with the size of the frame. -/
def zframeData : Option Frame → Except SocketFault Frame
  | some data => .ok data
  | none => .error .missingFrame

/-- The first bytes of a UUID are overwritten. -/
def overwrite (stack : Uuid) (data : Frame) (hdata : data.length ≤ 16) : Uuid :=
  ⟨(data ++ stack.toList.drop data.length).toArray, by simp; omega⟩

/-- The `memcpy` to a message id, which holds what was on the stack before. -/
def copyMsgID (stack : Uuid) (idFrame : Option Frame) : Except SocketFault Uuid := do
  let data ← zframeData idFrame
  if hdata : data.length ≤ 16 then return overwrite stack data hdata else .error .overflow

def nilUUID : Uuid :=
  Vector.replicate 16 0

/-- A whole id leaves nothing of the stack. -/
theorem toList_overwrite (stack : Uuid) {data : Frame} (hdata : data.length ≤ 16) :
    (overwrite stack data hdata).toList = data ↔ data.length = 16 := by
  constructor
  · intro heq
    rw [← heq]
    exact Vector.length_toList
  · intro hlength
    have hdrop : stack.toList.drop data.length = [] :=
      List.drop_eq_nil_of_le (by simp [hlength])
    simp [overwrite, hdrop]

section Receiving

variable (verify : Frame → Bool) (lexicalCast : Frame → Option Uuid) (stack : Uuid)

namespace ZstZMQServerTransport

/-- `ZstZMQServerTransport::sock_recv`; `zmsg_pop` returns null behind the last frame. -/
def sockRecv (frames : List Frame) : Except SocketFault Received := do
  let identityFrame := frames[0]?
  let idFrame := frames[2]?
  let payloadData := frames[3]?
  let msgID ← copyMsgID stack idFrame
  let identity ← zframeData identityFrame
  match lexicalCast identity with
  | none => .error .badLexicalCast
  | some clientUUID =>
    match payloadData with
    | some payload =>
      if verify payload then return { dispatched := [{ payload, clientUUID, msgID }] }
      else return { malformed := [(msgID, clientUUID)] }
    | none => return {}

end ZstZMQServerTransport

namespace ZstZMQClientTransport

/-- `ZstZMQClientTransport::sock_recv`. -/
def sockRecv (active : Bool) (frames : List Frame) : Except SocketFault Received := do
  if active then
    let idData := frames[1]?
    let msgData := frames[2]?
    let msgID ← copyMsgID stack idData
    match msgData with
    | some payload =>
      if verify payload then return { dispatched := [{ payload, clientUUID := nilUUID, msgID }] }
      else return {}
    | none => return {}
  else return {}

end ZstZMQClientTransport

/-! ## What a message is -/

/-- The frames are those of the message, at the server. -/
def ServerMessage (frames : List Frame) (m : StageMessage) : Prop :=
  ∃ identity empty rest, frames = identity :: empty :: m.msgID.toList :: m.payload :: rest ∧
    lexicalCast identity = some m.clientUUID ∧ verify m.payload = true

/-- The frames are those of the message, at a client. -/
def ClientMessage (frames : List Frame) (m : StageMessage) : Prop :=
  ∃ empty rest, frames = empty :: m.msgID.toList :: m.payload :: rest ∧
    m.clientUUID = nilUUID ∧ verify m.payload = true

/-- Nothing goes wrong, and at most one message is dispatched, which is as it
should be. -/
def HandledOnce (isMessage : StageMessage → Prop) (result : Except SocketFault Received) : Prop :=
  ∃ received, result = .ok received ∧
    (received.dispatched = [] ∨ ∃ m, received.dispatched = [m] ∧ isMessage m)

/-- There is an id frame, of at most 16 bytes, and of no fewer in front of a valid
payload, and the identity is that of a client. -/
def ServerFrames (frames : List Frame) : Prop :=
  ∃ identity empty id rest, frames = identity :: empty :: id :: rest ∧ id.length ≤ 16 ∧
    (lexicalCast identity).isSome ∧ ∀ payload ∈ rest.head?, verify payload = true → id.length = 16

/-- There is an id frame, of at most 16 bytes, and of no fewer in front of a valid
payload. -/
def ClientFrames (frames : List Frame) : Prop :=
  ∃ empty id rest, frames = empty :: id :: rest ∧ id.length ≤ 16 ∧
    ∀ payload ∈ rest.head?, verify payload = true → id.length = 16

theorem copyMsgID_of_le {id : Frame} (hle : id.length ≤ 16) :
    copyMsgID stack (some id) = .ok (overwrite stack id hle) := by
  simp only [copyMsgID, zframeData, bind, Except.bind, dif_pos hle]
  rfl

theorem copyMsgID_of_lt {id : Frame} (hlt : ¬ id.length ≤ 16) :
    copyMsgID stack (some id) = .error .overflow := by
  simp only [copyMsgID, zframeData, bind, Except.bind, dif_neg hlt]

theorem not_handled_error (isMessage : StageMessage → Prop) (fault : SocketFault) :
    ¬ HandledOnce isMessage (.error fault) := by
  rintro ⟨received, hreceived, -⟩
  cases hreceived

theorem handled_empty {isMessage : StageMessage → Prop} {received : Received}
    (hnone : received.dispatched = []) : HandledOnce isMessage (.ok received) :=
  ⟨received, rfl, Or.inl hnone⟩

theorem handled_one {isMessage : StageMessage → Prop} {m : StageMessage} :
    HandledOnce isMessage (.ok { dispatched := [m] }) ↔ isMessage m := by
  constructor
  · rintro ⟨received, hreceived, hdispatched⟩
    obtain rfl := Except.ok.inj hreceived
    rcases hdispatched with hnone | ⟨m', hone, hmessage⟩
    · cases hnone
    · rw [(List.cons.inj hone).1]
      exact hmessage
  · exact fun hmessage => ⟨_, rfl, Or.inr ⟨m, rfl, hmessage⟩⟩

variable {verify lexicalCast}

theorem serverFrames_cons {identity empty id : Frame} {rest : List Frame} :
    ServerFrames verify lexicalCast (identity :: empty :: id :: rest) ↔
      id.length ≤ 16 ∧ (lexicalCast identity).isSome ∧
        ∀ payload ∈ rest.head?, verify payload = true → id.length = 16 := by
  constructor
  · rintro ⟨_, _, _, _, hframes, hreads⟩
    cases hframes
    exact hreads
  · exact fun hreads => ⟨identity, empty, id, rest, rfl, hreads⟩

theorem clientFrames_cons {empty id : Frame} {rest : List Frame} :
    ClientFrames verify (empty :: id :: rest) ↔
      id.length ≤ 16 ∧ ∀ payload ∈ rest.head?, verify payload = true → id.length = 16 := by
  constructor
  · rintro ⟨_, _, _, hframes, hreads⟩
    cases hframes
    exact hreads
  · exact fun hreads => ⟨empty, id, rest, rfl, hreads⟩

variable {stack}

/-- The message is that of the frames if its id is whole. -/
theorem serverMessage_overwrite {identity empty id payload : Frame} {rest : List Frame}
    (hid : id.length ≤ 16) {clientUUID : Uuid} (hcast : lexicalCast identity = some clientUUID)
    (hverify : verify payload = true) :
    ServerMessage verify lexicalCast (identity :: empty :: id :: payload :: rest)
        { payload, clientUUID, msgID := overwrite stack id hid } ↔ id.length = 16 := by
  rw [← toList_overwrite stack hid]
  constructor
  · rintro ⟨_, _, _, hframes, -⟩
    simp only [List.cons.injEq] at hframes
    exact hframes.2.2.1.symm
  · intro hwhole
    refine ⟨identity, empty, rest, ?_, hcast, hverify⟩
    rw [hwhole]

theorem clientMessage_overwrite {empty id payload : Frame} {rest : List Frame}
    (hid : id.length ≤ 16) (hverify : verify payload = true) :
    ClientMessage verify (empty :: id :: payload :: rest)
        { payload, clientUUID := nilUUID, msgID := overwrite stack id hid } ↔
      id.length = 16 := by
  rw [← toList_overwrite stack hid]
  constructor
  · rintro ⟨_, _, hframes, -⟩
    simp only [List.cons.injEq] at hframes
    exact hframes.2.1.symm
  · intro hwhole
    refine ⟨empty, rest, ?_, rfl, hverify⟩
    rw [hwhole]

/-- The server handles its frames exactly if there are enough of them, and of the
right sizes. -/
theorem server_handled_iff (frames : List Frame) :
    HandledOnce (ServerMessage verify lexicalCast frames)
        (ZstZMQServerTransport.sockRecv verify lexicalCast stack frames) ↔
      ServerFrames verify lexicalCast frames := by
  obtain _ | ⟨identity, _ | ⟨empty, _ | ⟨id, rest⟩⟩⟩ := frames
  · exact iff_of_false (not_handled_error _ .missingFrame) (by simp [ServerFrames])
  · exact iff_of_false (not_handled_error _ .missingFrame) (by simp [ServerFrames])
  · exact iff_of_false (not_handled_error _ .missingFrame) (by simp [ServerFrames])
  rw [serverFrames_cons]
  unfold ZstZMQServerTransport.sockRecv
  simp only [List.getElem?_cons_zero, List.getElem?_cons_succ]
  by_cases hid : id.length ≤ 16
  · rw [copyMsgID_of_le stack hid]
    simp only [zframeData, bind, Except.bind]
    cases hcast : lexicalCast identity with
    | none => exact iff_of_false (not_handled_error _ .badLexicalCast) (by simp)
    | some clientUUID =>
      cases rest with
      | nil =>
        simp only [List.getElem?_nil]
        exact iff_of_true (handled_empty rfl) ⟨hid, rfl, by simp⟩
      | cons payload rest =>
        simp only [List.getElem?_cons_zero]
        cases hverify : verify payload with
        | false =>
          refine iff_of_true (handled_empty rfl) ⟨hid, rfl, ?_⟩
          simp [hverify]
        | true =>
          refine handled_one.trans ((serverMessage_overwrite hid hcast hverify).trans ?_)
          simp [hid, hverify]
  · rw [copyMsgID_of_lt stack hid]
    exact iff_of_false (not_handled_error _ .overflow) fun hreads => hid hreads.1

/-- So does a client, which leaves the frames alone while it is not active. -/
theorem client_handled_iff (active : Bool) (frames : List Frame) :
    HandledOnce (ClientMessage verify frames)
        (ZstZMQClientTransport.sockRecv verify stack active frames) ↔
      active = false ∨ ClientFrames verify frames := by
  cases active with
  | false => exact iff_of_true (handled_empty rfl) (Or.inl rfl)
  | true =>
    simp only [Bool.true_eq_false, false_or]
    obtain _ | ⟨empty, _ | ⟨id, rest⟩⟩ := frames
    · exact iff_of_false (not_handled_error _ .missingFrame) (by simp [ClientFrames])
    · exact iff_of_false (not_handled_error _ .missingFrame) (by simp [ClientFrames])
    rw [clientFrames_cons]
    unfold ZstZMQClientTransport.sockRecv
    simp only [List.getElem?_cons_zero, List.getElem?_cons_succ, if_true]
    by_cases hid : id.length ≤ 16
    · rw [copyMsgID_of_le stack hid]
      simp only [bind, Except.bind]
      cases rest with
      | nil =>
        simp only [List.getElem?_nil]
        exact iff_of_true (handled_empty rfl) ⟨hid, by simp⟩
      | cons payload rest =>
        simp only [List.getElem?_cons_zero]
        cases hverify : verify payload with
        | false =>
          refine iff_of_true (handled_empty rfl) ⟨hid, ?_⟩
          simp [hverify]
        | true =>
          refine handled_one.trans ((clientMessage_overwrite hid hverify).trans ?_)
          simp [hid, hverify]
    · rw [copyMsgID_of_lt stack hid]
      exact iff_of_false (not_handled_error _ .overflow) fun hreads => hid hreads.1

end Receiving

/-- Both sockets handle a list of frames exactly if it has an identity of a client
and an id frame that is not too long, nor too short in front of a valid payload. -/
theorem sockRecv_handled_iff (verify : Frame → Bool) (lexicalCast : Frame → Option Uuid)
    (stack : Uuid) (active : Bool) (frames : List Frame) :
    (HandledOnce (ServerMessage verify lexicalCast frames)
        (ZstZMQServerTransport.sockRecv verify lexicalCast stack frames) ↔
      ServerFrames verify lexicalCast frames) ∧
    (HandledOnce (ClientMessage verify frames)
        (ZstZMQClientTransport.sockRecv verify stack active frames) ↔
      active = false ∨ ClientFrames verify frames) :=
  ⟨server_handled_iff frames, client_handled_iff active frames⟩

/-- A client gets a message whose id frame is too long. -/
theorem sockRecv_not_handled : ¬ ∀ (verify : Frame → Bool) (lexicalCast : Frame → Option Uuid)
    (stack : Uuid) (active : Bool) (frames : List Frame),
    HandledOnce (ServerMessage verify lexicalCast frames)
        (ZstZMQServerTransport.sockRecv verify lexicalCast stack frames) ∧
      HandledOnce (ClientMessage verify frames)
        (ZstZMQClientTransport.sockRecv verify stack active frames) := by
  intro hall
  have hclient := (hall (fun _ => true) (fun _ => some nilUUID) nilUUID true
    [[], List.replicate 20 1, [1]]).2
  exact not_handled_error _ .overflow hclient

end Showtime.SocketFrames
