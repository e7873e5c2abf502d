import Mathlib.Data.List.Nodup
import Mathlib.Data.List.Perm.Basic
import Showtime.Library.Run
/-!
# A websocket session

`ZstWebsocketSession` reads frames into one buffer, from which a message is
decoded where it lies, and writes the messages of a queue one after the other.
Each half is a machine whose steps are the handlers of the session.
-/

namespace Showtime.WebsocketSession

open Library

/-! ## Writing -/

/-- A copy of a message, which `do_write` makes; two of them are never the same. -/
structure OutMessage where
  number : Nat
  data : List UInt8
  deriving DecidableEq, Repr

structure Writer where
  copies : List OutMessage := []
  /-- The `on_send` handlers that were posted and have not run. -/
  posted : List OutMessage := []
  outMessages : List OutMessage := []
  /-- The buffers of the outstanding `async_write` operations. -/
  writing : List OutMessage := []
  /-- The messages whose `on_send` has run, in order. -/
  sends : List OutMessage := []
  written : List OutMessage := []

inductive WriterEvent
  | doWrite (data : List UInt8)
  | onSend (posted : Nat)
  | onWrite (outstanding : Nat)
  deriving DecidableEq, Repr

namespace Writer

def doWrite (s : Writer) (data : List UInt8) : Writer :=
  let copy := ⟨s.copies.length, data⟩
  { s with copies := s.copies ++ [copy], posted := s.posted ++ [copy] }

def asyncWriteFront (s : Writer) : Writer :=
  { s with writing := s.writing ++ s.outMessages.take 1 }

def onSend (s : Writer) (message : OutMessage) : Writer :=
  let s :=
    { s with outMessages := s.outMessages ++ [message], sends := s.sends ++ [message] }
  if s.outMessages.length > 1 then s else s.asyncWriteFront

/-- `on_write` without an error: the front of the queue is erased. -/
def onWrite (s : Writer) : Writer :=
  let s := { s with outMessages := s.outMessages.drop 1 }
  if s.outMessages ≠ [] then s.asyncWriteFront else s

section Handlers

variable (s : Writer) (message : OutMessage)

/-- Only an empty queue lets a write begin at once. -/
theorem onSend_eq : s.onSend message =
    { s with
      outMessages := s.outMessages ++ [message]
      sends := s.sends ++ [message]
      writing := if s.outMessages = [] then s.writing ++ [message] else s.writing } := by
  unfold onSend asyncWriteFront
  cases hqueue : s.outMessages with
  | nil => simp
  | cons first rest => simp

theorem onWrite_eq : s.onWrite =
    { s with
      outMessages := s.outMessages.drop 1
      writing := s.writing ++ (s.outMessages.drop 1).take 1 } := by
  unfold onWrite asyncWriteFront
  simp only
  split
  · rfl
  · rename_i hempty
    rw [not_not.mp hempty, List.take_nil, List.append_nil]

end Handlers

/-- A step whose handler does not wait to be run is none. -/
def step (s : Writer) : WriterEvent → Except Unit Writer
  | .doWrite data => .ok (s.doWrite data)
  | .onSend posted =>
    match s.posted[posted]? with
    | some message => .ok (onSend { s with posted := s.posted.eraseIdx posted } message)
    | none => .error ()
  | .onWrite outstanding =>
    match s.writing[outstanding]? with
    | some message =>
      .ok (onWrite { s with
        writing := s.writing.eraseIdx outstanding
        written := s.written ++ [message] })
    | none => .error ()

/-- What holds between the steps: at most one write is outstanding, and one is as
long as there is something to write; what is written stays in the queue; the
messages are written in the order in which they were sent, and only once. -/
structure WritesInOrder (s : Writer) : Prop where
  one : s.writing.length ≤ 1
  busy : s.outMessages ≠ [] → s.writing ≠ []
  kept : ∀ message ∈ s.writing, message ∈ s.outMessages
  order : s.written ++ s.outMessages = s.sends
  once : ∀ message ∈ s.sends, (s.written ++ s.outMessages).count message = 1

/-- The front of the queue is being written, and nothing else. -/
structure WritesFront (s : Writer) : Prop where
  front : s.writing = s.outMessages.take 1
  order : s.written ++ s.outMessages = s.sends
  copied : (s.sends ++ s.posted).Perm s.copies
  numbered : ∀ message ∈ s.copies, message.number < s.copies.length
  distinct : s.copies.Nodup

theorem WritesFront.orderly {s : Writer} (hs : WritesFront s) : WritesInOrder s where
  one := by
    rw [hs.front, List.length_take]
    exact Nat.min_le_left _ _
  busy hqueue := by
    rw [hs.front]
    cases hs' : s.outMessages with
    | nil => exact absurd hs' hqueue
    | cons message rest => simp
  kept message hmessage := by
    rw [hs.front] at hmessage
    exact List.mem_of_mem_take hmessage
  order := hs.order
  once message hmessage := by
    have hnodup : s.sends.Nodup := (List.nodup_append.mp (hs.copied.nodup_iff.mpr hs.distinct)).1
    rw [hs.order]
    exact List.count_eq_one_of_mem hnodup hmessage

theorem WritesFront.doWrite {s : Writer} (hs : WritesFront s) (data : List UInt8) :
    WritesFront (s.doWrite data) where
  front := hs.front
  order := hs.order
  copied := by
    change (s.sends ++ (s.posted ++ _)).Perm (s.copies ++ _)
    rw [← List.append_assoc]
    exact hs.copied.append_right _
  numbered message hmessage := by
    simp only [Writer.doWrite, List.mem_append, List.mem_singleton, List.length_append,
      List.length_singleton] at hmessage ⊢
    rcases hmessage with hmessage | rfl
    · exact Nat.lt_succ_of_lt (hs.numbered message hmessage)
    · exact Nat.lt_succ_self _
  distinct := by
    refine List.nodup_append.mpr ⟨hs.distinct, List.nodup_singleton _, ?_⟩
    rintro message hmessage copy hcopy rfl
    have hlt := hs.numbered message hmessage
    rw [List.mem_singleton.mp hcopy] at hlt
    exact absurd hlt (Nat.lt_irrefl _)

/-- A queue that was empty starts to write, any other one is writing already. -/
theorem WritesFront.onSend {s : Writer} (hs : WritesFront s) {posted : Nat} {message : OutMessage}
    (hposted : s.posted[posted]? = some message) :
    WritesFront (Writer.onSend { s with posted := s.posted.eraseIdx posted } message) := by
  obtain ⟨hlt, hget⟩ := List.getElem?_eq_some_iff.mp hposted
  rw [onSend_eq]
  refine ⟨?_, ?_, ?_, hs.numbered, hs.distinct⟩
  · dsimp only
    rw [hs.front]
    cases s.outMessages with
    | nil => rfl
    | cons first rest => rfl
  · dsimp only
    rw [← List.append_assoc, hs.order]
  · dsimp only
    rw [List.append_assoc, List.singleton_append, ← hget]
    exact ((List.getElem_cons_eraseIdx_perm hlt).append_left _).trans hs.copied

/-- Only the front can be complete, and the next message takes its place. -/
theorem WritesFront.onWrite {s : Writer} (hs : WritesFront s) {outstanding : Nat}
    {message : OutMessage} (hwriting : s.writing[outstanding]? = some message) :
    WritesFront (Writer.onWrite { s with
      writing := s.writing.eraseIdx outstanding
      written := s.written ++ [message] }) := by
  obtain ⟨rest, hqueue⟩ : ∃ rest, s.outMessages = message :: rest := by
    have hmem := List.mem_of_getElem? hwriting
    rw [hs.front] at hmem
    cases hqueue : s.outMessages with
    | nil => simp [hqueue] at hmem
    | cons first rest =>
      have hfirst : message = first := by simpa [hqueue] using hmem
      exact ⟨rest, by rw [hfirst]⟩
  have hdone : s.writing.eraseIdx outstanding = [] := by
    have hlt := (List.getElem?_eq_some_iff.mp hwriting).1
    rw [hs.front, hqueue] at hlt ⊢
    have hzero : outstanding = 0 := by simpa using hlt
    rw [hzero]
    rfl
  rw [onWrite_eq]
  refine ⟨?_, ?_, hs.copied, hs.numbered, hs.distinct⟩
  · dsimp only
    rw [hdone, List.nil_append]
  · dsimp only
    rw [← hs.order, hqueue, List.drop_succ_cons, List.drop_zero, List.append_assoc,
      List.singleton_append]

theorem WritesFront.step {s t : Writer} {event : WriterEvent} (hs : WritesFront s)
    (hstep : s.step event = .ok t) : WritesFront t := by
  cases event with
  | doWrite data =>
    obtain rfl := Except.ok.inj hstep
    exact hs.doWrite data
  | onSend posted =>
    simp only [Writer.step] at hstep
    split at hstep
    · rename_i message hposted
      obtain rfl := Except.ok.inj hstep
      exact hs.onSend hposted
    · cases hstep
  | onWrite outstanding =>
    simp only [Writer.step] at hstep
    split at hstep
    · rename_i message hwriting
      obtain rfl := Except.ok.inj hstep
      exact hs.onWrite hwriting
    · cases hstep

theorem consistent_opened : WritesFront {} where
  front := rfl
  order := rfl
  copied := .refl _
  numbered _ hmessage := absurd hmessage List.not_mem_nil
  distinct := List.nodup_nil

/-- The handlers of a session never write two messages at once, never stop while
there is something to write, and keep the order of the messages. -/
theorem writes_orderly (events : List WriterEvent) (t : Writer)
    (hrun : run step {} events = .ok t) : WritesInOrder t :=
  (run_invariant (fun _ _ _ hs _ hstep => WritesFront.step hs hstep) consistent_opened
    (along_of_forall fun _ _ _ _ _ _ => trivial) hrun).orderly

theorem writes_orderly_pair : ∃ t, run step {} [.doWrite [1], .doWrite [2], .onSend 1, .onSend 0,
    .onWrite 0] = .ok t ∧ t.written = [⟨1, [2]⟩] ∧ WritesInOrder t := by
  refine ⟨_, rfl, rfl, writes_orderly [.doWrite [1], .doWrite [2], .onSend 1, .onSend 0,
    .onWrite 0] _ rfl⟩

end Writer

/-! ## Reading -/

structure WebsocketFrame where
  binary : Bool
  data : List UInt8
  deriving DecidableEq, Repr

structure Reader where
  recvBuffer : List UInt8 := []
  reading : Bool := true
  incoming : List UInt8 := []
  /-- The frames whose reads are complete, in order. -/
  frames : List WebsocketFrame := []
  /-- What the dispatched messages were decoded from, in order. -/
  dispatched : List (List UInt8) := []
  /-- The dispatched messages whose callback has not run, each with the contents
  that the buffer had; they refer to the buffer. -/
  unprocessed : List (List UInt8) := []

inductive ReaderEvent
  | bytes (data : List UInt8)
  /-- `on_read` without an error. -/
  | onRead (binary : Bool)
  /-- `on_read` after the session was closed, or another error. -/
  | onError
  /-- A message was processed, and its callback runs. -/
  | processed (unprocessed : Nat)
  deriving DecidableEq, Repr

namespace Reader

def doRead (s : Reader) : Reader :=
  { s with reading := true, incoming := [] }

/-- `on_read`: a text frame is left in the buffer, and the contents of the buffer
are not verified before a message is made of them. -/
def onRead (s : Reader) (binary : Bool) : Reader :=
  let frame : WebsocketFrame := ⟨binary, s.incoming⟩
  let s := { s with reading := false, frames := s.frames ++ [frame] }
  if binary then
    { s with
      dispatched := s.dispatched ++ [s.recvBuffer]
      unprocessed := s.unprocessed ++ [s.recvBuffer] }
  else s.doRead

def onProcessed (s : Reader) : Reader :=
  { s with recvBuffer := [] }.doRead

def step (s : Reader) : ReaderEvent → Except Unit Reader
  | .bytes data =>
    if s.reading then
      .ok { s with recvBuffer := s.recvBuffer ++ data, incoming := s.incoming ++ data }
    else .error ()
  | .onRead binary => if s.reading then .ok (s.onRead binary) else .error ()
  | .onError => if s.reading then .ok { s with reading := false } else .error ()
  | .processed unprocessed =>
    match s.unprocessed[unprocessed]? with
    | some _ => .ok { s with unprocessed := s.unprocessed.eraseIdx unprocessed }.onProcessed
    | none => .error ()

section Frames

variable (valid : List UInt8 → Bool)

/-- Every message was decoded from one valid binary frame, each of these was
decoded once and in its turn, and the messages that are not processed find in the
buffer what they were decoded from. -/
structure DecodedOnce (s : Reader) : Prop where
  decoded : s.dispatched =
    (s.frames.filter fun f => f.binary && valid f.data).map WebsocketFrame.data
  intact : ∀ data ∈ s.unprocessed, s.recvBuffer = data

/-- Binary frames are valid, and none comes after a text frame with contents. -/
structure CleanFrames (frames : List WebsocketFrame) : Prop where
  valid : ∀ f ∈ frames, f.binary = true → valid f.data = true
  apart : frames.Pairwise fun f g => g.binary = true → f.binary = true ∨ f.data = []

end Frames

/-! ### What is decoded -/

/-- What the buffer holds after some frames, if it held something before. -/
def held : List UInt8 → List WebsocketFrame → List UInt8
  | buffer, [] => buffer
  | buffer, f :: frames => held (if f.binary then [] else buffer ++ f.data) frames

def decodes : List UInt8 → List WebsocketFrame → List (List UInt8)
  | _, [] => []
  | buffer, f :: frames =>
    if f.binary then (buffer ++ f.data) :: decodes [] frames
    else decodes (buffer ++ f.data) frames

theorem held_concat (buffer : List UInt8) (frames : List WebsocketFrame) (f : WebsocketFrame) :
    held buffer (frames ++ [f]) = if f.binary then [] else held buffer frames ++ f.data := by
  induction frames generalizing buffer with
  | nil => rfl
  | cons g frames ih => exact ih _

theorem decodes_concat (buffer : List UInt8) (frames : List WebsocketFrame) (f : WebsocketFrame) :
    decodes buffer (frames ++ [f]) =
      decodes buffer frames ++ if f.binary then [held buffer frames ++ f.data] else [] := by
  induction frames generalizing buffer with
  | nil => simp [decodes, held]
  | cons g frames ih =>
    simp only [List.cons_append, decodes, held]
    split
    · rw [ih, List.cons_append]
    · rw [ih]

theorem length_decodes (buffer : List UInt8) (frames : List WebsocketFrame) :
    (decodes buffer frames).length = frames.countP WebsocketFrame.binary := by
  induction frames generalizing buffer with
  | nil => rfl
  | cons f frames ih =>
    cases hbinary : f.binary with
    | true => simp [decodes, hbinary, ih]
    | false => simp [decodes, hbinary, ih]

/-- The messages are those of the valid binary frames if nothing is left in the
buffer in front of a binary frame, and no binary frame is invalid. -/
theorem decodes_eq_iff (valid : List UInt8 → Bool) (buffer : List UInt8)
    (frames : List WebsocketFrame) :
    decodes buffer frames =
        (frames.filter fun f => f.binary && valid f.data).map WebsocketFrame.data ↔
      CleanFrames valid frames ∧ ∀ f ∈ frames, f.binary = true → buffer = [] := by
  induction frames generalizing buffer with
  | nil =>
    refine iff_of_true rfl ⟨⟨fun f hf => absurd hf List.not_mem_nil, .nil⟩, ?_⟩
    exact fun f hf => absurd hf List.not_mem_nil
  | cons f frames ih =>
    cases hbinary : f.binary with
    | true =>
      cases hvalid : valid f.data with
      | true =>
        simp only [decodes, hbinary, hvalid, if_true, List.filter_cons, Bool.and_self,
          List.map_cons, List.cons.injEq, ih]
        constructor
        · rintro ⟨hdata, hclean, -⟩
          have hempty : buffer = [] := by simpa using hdata
          refine ⟨⟨?_, List.pairwise_cons.mpr ⟨fun _ _ _ => Or.inl hbinary, hclean.apart⟩⟩,
            fun _ _ _ => hempty⟩
          rintro g (_ | ⟨_, hg⟩) hgbinary
          · exact hvalid
          · exact hclean.valid g hg hgbinary
        · rintro ⟨hclean, hempty⟩
          refine ⟨by rw [hempty f List.mem_cons_self hbinary, List.nil_append], ⟨?_, ?_⟩,
            fun _ _ _ => trivial⟩
          · exact fun g hg => hclean.valid g (List.mem_cons_of_mem _ hg)
          · exact (List.pairwise_cons.mp hclean.apart).2
      | false =>
        refine iff_of_false (fun heq => ?_) fun ⟨hclean, _⟩ => ?_
        · -- the frame is decoded, so there are more messages than valid frames
          have hlength := congrArg List.length heq
          have hle : (frames.filter fun f => f.binary && valid f.data).length ≤
              frames.countP WebsocketFrame.binary := by
            rw [← List.countP_eq_length_filter]
            refine List.countP_mono_left fun g _ hg => ?_
            exact (Bool.and_eq_true_iff.mp hg).1
          simp only [decodes, hbinary, hvalid, if_true, List.filter_cons, Bool.and_false,
            Bool.false_eq_true, if_false, List.length_cons, length_decodes,
            List.length_map] at hlength
          omega
        · rw [hclean.valid f List.mem_cons_self hbinary] at hvalid
          cases hvalid
    | false =>
      simp only [decodes, hbinary, Bool.false_eq_true, if_false, List.filter_cons,
        Bool.false_and, ih, List.append_eq_nil_iff]
      constructor
      · rintro ⟨hclean, hempty⟩
        refine ⟨⟨?_, List.pairwise_cons.mpr
          ⟨fun g hg hgbinary => Or.inr (hempty g hg hgbinary).2, hclean.apart⟩⟩, ?_⟩
        · rintro g (_ | ⟨_, hg⟩) hgbinary
          · rw [hbinary] at hgbinary
            cases hgbinary
          · exact hclean.valid g hg hgbinary
        · rintro g (_ | ⟨_, hg⟩) hgbinary
          · rw [hbinary] at hgbinary
            cases hgbinary
          · exact (hempty g hg hgbinary).1
      · rintro ⟨hclean, hempty⟩
        obtain ⟨hfirst, hrest⟩ := List.pairwise_cons.mp hclean.apart
        refine ⟨⟨fun g hg => hclean.valid g (List.mem_cons_of_mem _ hg), hrest⟩, ?_⟩
        intro g hg hgbinary
        refine ⟨hempty g (List.mem_cons_of_mem _ hg) hgbinary, ?_⟩
        exact (hfirst g hg hgbinary).resolve_left (by rw [hbinary]; exact Bool.false_ne_true)

/-! ### The buffer along a run -/

/-- The messages are those that the frames give; there is a message that is not
processed, and the buffer is left alone, or the buffer holds what the frames left
and what has come of the next one. -/
structure BufferFollows (s : Reader) : Prop where
  dispatched : s.dispatched = decodes [] s.frames
  buffer : (s.reading = false ∧ s.unprocessed = [s.recvBuffer] ∧ held [] s.frames = []) ∨
    (s.unprocessed = [] ∧ s.recvBuffer = held [] s.frames ++ s.incoming)

theorem tracks_opened : BufferFollows {} where
  dispatched := rfl
  buffer := Or.inr ⟨rfl, rfl⟩

theorem BufferFollows.step {s t : Reader} {event : ReaderEvent} (hs : BufferFollows s)
    (hstep : s.step event = .ok t) : BufferFollows t := by
  cases event with
  | bytes data =>
    simp only [Reader.step] at hstep
    split at hstep
    · rename_i hreading
      obtain rfl := Except.ok.inj hstep
      rcases hs.buffer with ⟨hidle, -⟩ | ⟨hnone, hbuffer⟩
      · rw [hreading] at hidle
        cases hidle
      · refine ⟨hs.dispatched, Or.inr ⟨hnone, ?_⟩⟩
        dsimp only
        rw [hbuffer, List.append_assoc]
    · cases hstep
  | onRead binary =>
    simp only [Reader.step] at hstep
    split at hstep
    · rename_i hreading
      obtain rfl := Except.ok.inj hstep
      rcases hs.buffer with ⟨hidle, -⟩ | ⟨hnone, hbuffer⟩
      · rw [hreading] at hidle
        cases hidle
      · cases binary with
        | true =>
          refine ⟨?_, Or.inl ⟨rfl, ?_, ?_⟩⟩ <;> simp only [onRead, if_true]
          · rw [decodes_concat, ← hs.dispatched, if_pos rfl, hbuffer]
          · rw [hnone, List.nil_append]
          · rw [held_concat, if_pos rfl]
        | false =>
          refine ⟨?_, Or.inr ⟨hnone, ?_⟩⟩ <;>
            simp only [onRead, doRead, Bool.false_eq_true, if_false]
          · rw [decodes_concat, ← hs.dispatched, if_neg Bool.false_ne_true, List.append_nil]
          · rw [held_concat, if_neg Bool.false_ne_true, hbuffer, List.append_nil]
    · cases hstep
  | onError =>
    simp only [Reader.step] at hstep
    split at hstep
    · obtain rfl := Except.ok.inj hstep
      rcases hs.buffer with ⟨-, hone, hheld⟩ | hbuffer
      · exact ⟨hs.dispatched, Or.inl ⟨rfl, hone, hheld⟩⟩
      · exact ⟨hs.dispatched, Or.inr hbuffer⟩
    · cases hstep
  | processed unprocessed =>
    simp only [Reader.step] at hstep
    split at hstep
    · rename_i data hdata
      obtain rfl := Except.ok.inj hstep
      rcases hs.buffer with ⟨-, hone, hheld⟩ | ⟨hnone, -⟩
      · have hzero : unprocessed = 0 := by
          have hlt := (List.getElem?_eq_some_iff.mp hdata).1
          rw [hone, List.length_singleton] at hlt
          omega
        refine ⟨hs.dispatched, Or.inr ⟨?_, ?_⟩⟩
        · simp only [onProcessed, doRead, hone, hzero]
          rfl
        · simp only [onProcessed, doRead, hheld]
          rfl
      · rw [hnone, List.getElem?_nil] at hdata
        cases hdata
    · cases hstep

theorem BufferFollows.along {events : List ReaderEvent} {t : Reader}
    (hrun : run Reader.step {} events = .ok t) : BufferFollows t :=
  run_invariant (fun _ _ _ hs _ hstep => BufferFollows.step hs hstep) tracks_opened
    (along_of_forall fun _ _ _ _ _ _ => trivial) hrun

/-- What is not processed yet is never overwritten. -/
theorem BufferFollows.intact {s : Reader} (hs : BufferFollows s) :
    ∀ data ∈ s.unprocessed, s.recvBuffer = data := by
  intro data hdata
  rcases hs.buffer with ⟨-, hone, -⟩ | ⟨hnone, -⟩
  · rw [hone] at hdata
    exact (List.mem_singleton.mp hdata).symm
  · rw [hnone] at hdata
    exact absurd hdata List.not_mem_nil

/-- A session decodes its messages from the valid binary frames exactly if it gets
no other binary frame, and no text before a binary frame. -/
theorem faithful_iff_clean (valid : List UInt8 → Bool) (events : List ReaderEvent) (t : Reader)
    (hrun : run step {} events = .ok t) :
    DecodedOnce valid t ↔ CleanFrames valid t.frames := by
  have htracks := BufferFollows.along hrun
  constructor
  · intro hfaithful
    have hdecoded := hfaithful.decoded
    rw [htracks.dispatched] at hdecoded
    exact ((decodes_eq_iff valid [] t.frames).mp hdecoded).1
  · intro hclean
    refine ⟨?_, htracks.intact⟩
    rw [htracks.dispatched]
    exact (decodes_eq_iff valid [] t.frames).mpr ⟨hclean, fun _ _ _ => rfl⟩

def textFirst : List ReaderEvent :=
  [.bytes [104, 105], .onRead false, .bytes [16, 0, 0, 0], .onRead true]

def textLast : List ReaderEvent :=
  [.bytes [16, 0, 0, 0], .onRead true, .processed 0, .bytes [104, 105], .onRead false]

theorem faithful_iff_clean_text :
    (∃ t, run step {} textLast = .ok t ∧ DecodedOnce (fun data => data = [16, 0, 0, 0]) t) ∧
      ∃ t, run step {} textFirst = .ok t ∧ ¬ DecodedOnce (fun data => data = [16, 0, 0, 0]) t := by
  refine ⟨⟨_, rfl, ?_⟩, ⟨_, rfl, ?_⟩⟩
  · exact (faithful_iff_clean _ textLast _ rfl).mpr ⟨by decide, by decide⟩
  · intro hdecoded
    have hclean := (faithful_iff_clean _ textFirst _ rfl).mp hdecoded
    exact absurd hclean.apart (by decide)

/-- The message is made of the text and the valid binary frame behind it. -/
theorem text_decoded : ¬ ∀ (valid : List UInt8 → Bool) (events : List ReaderEvent) (t : Reader),
    run step {} events = .ok t → DecodedOnce valid t := by
  intro hall
  have hdecoded := (hall (fun data => data = [16, 0, 0, 0]) textFirst _ rfl).decoded
  exact absurd hdecoded (by decide)

end Reader
end Showtime.WebsocketSession
