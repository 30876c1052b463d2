import GrpcUds.Ffi.Mailbox
import GrpcUds.Server.Finished

/-!
# Calls on the I/O thread

On the registered thread the C ABI goes straight to the core and reports its result as
an errno code.
-/

namespace GrpcUds.Ffi

open Server

def errNoent : Int := -2

def errAgain : Int := -11

def errPipe : Int := -32

/-- `conn_err_to_c`; nghttp2 codes pass through. -/
def connErrToC : ConnError → Int
  | .outOfMemory => errNomem
  | .streamNotFound => errNoent
  | .streamFinished => errPipe
  | .queueFull => errAgain
  | .nghttp2 code => code

/-- The code that a core result becomes. -/
def resultToC : Except ConnError Unit → Int
  | .ok () => 0
  | .error error => connErrToC error

/-- A stream that something has finished is changed by no later write or finish; a write
is refused with `-EPIPE`, and a finish is not. -/
theorem finished_stream_refuses_iff {conn : Conn} (point : conn.Point) {id : StreamId}
    {stream : StreamCtx} (found : conn.findStream id = some stream) {effect : Effect}
    (recorded : effect ∈ conn.logOf id) (finishes : effect.asFinish.isSome = true)
    {call : ApiCall} (answers : call.answers? = some id) :
    (((conn.api call).1 = .error .streamFinished ∧ resultToC (conn.api call).1 = errPipe ∧
        (conn.api call).2.findStream id = some stream) ↔ call.isWrite = true) ∧
      (conn.api call).2.findStream id = some stream := by
  have finished := (point.finished_iff found).mpr ⟨effect, recorded, finishes⟩
  obtain ⟨result, unchanged⟩ := Conn.api_of_finished found finished answers
  have kept : (conn.api call).2.findStream id = some stream := by
    rw [Conn.findStream, unchanged]
    exact found
  refine ⟨?_, kept⟩
  rw [result]
  cases isWrite : call.isWrite with
  | true => exact ⟨fun _ => rfl, fun _ => ⟨rfl, rfl, kept⟩⟩
  | false => simp

def oneMethod : Conn := .newServer [⟨Headers.ascii "/S/M", 7, 0, none⟩] 100 (-1)

/-- A request whose handler finishes the call. -/
def finishesInHandler : List ConnEvent :=
  [.beginHeaders ⟨1, nvHeaders, 0, .request⟩ true,
    .header 1 Headers.nPath (Headers.ascii "/S/M") 0 true,
    .dataChunkRecv 1 (Framing.frame [9]) true, .frameRecv ⟨1, nvData, flagEndStream, .headers⟩,
    .dispatch ⟨fun _ => ⟨[.finishCall 1 .ok], 0⟩, fun _ => 0⟩]

/-- A call that its handler finished refuses a later write. -/
theorem finished_stream_refuses_late_write :
    ∃ conn, Transition.run Conn.step oneMethod finishesInHandler = some conn ∧
      (conn.writeCall 1 [5] true true).1 = .error .streamFinished ∧
      resultToC (conn.writeCall 1 [5] true true).1 = -32 := by
  obtain ⟨conn, reached, stream, found, recorded⟩ : ∃ conn,
      Transition.run Conn.step oneMethod finishesInHandler = some conn ∧
      ∃ stream, conn.findStream 1 = some stream ∧ .finish 1 .ok none ∈ conn.logOf 1 :=
    ⟨_, rfl, _, rfl, by decide⟩
  have refused := (@finished_stream_refuses_iff conn (.between ⟨_, _, _, _, reached⟩) 1 stream
    found _ recorded rfl (.writeCall 1 [5] true true) rfl).1.mpr rfl
  exact ⟨conn, reached, refused.1, refused.2.1⟩

/-- The same call accepts a second finish, and the code is 0. -/
theorem finished_stream_accepts_second_finish :
    ∃ conn, Transition.run Conn.step oneMethod finishesInHandler = some conn ∧
      (conn.findStream 1).any (fun stream => stream.out.finished) = true ∧
      (conn.finishCallMsg 1 .internal (Headers.ascii "late")).1 = .ok () ∧
      resultToC (conn.finishCallMsg 1 .internal (Headers.ascii "late")).1 = 0 :=
  ⟨_, rfl, by decide, rfl, rfl⟩

end GrpcUds.Ffi
