import HttpServer.Http.Text

/-!
# Socket input and output

A run is driven by the outcomes of its successive `recv` and `send` calls. When
the script of `recv` outcomes is used up no more input arrives; when that of the
`send` outcomes is used up the kernel takes every further byte at once.
-/

namespace HttpServer

/-- The outcome of one `recv`; no data is the end of the stream. -/
inductive RecvOutcome where
  | data (c : Bytes)
  | interrupted
  | wouldBlock
  | failed
  deriving DecidableEq

/-- The outcome of one `send`; `sent n` takes `n` bytes, or all that are offered, and `broken`
meets a socket whose peer has gone. -/
inductive SendOutcome where
  | sent (n : Nat)
  | interrupted
  | wouldBlock
  | failed
  | broken
  deriving DecidableEq

/-- The chunks a script delivers. -/
def chunks (recvs : List RecvOutcome) : List Bytes :=
  recvs.filterMap fun o =>
    match o with
    | .data c => some c
    | _ => none

@[simp] theorem chunks_nil : chunks [] = [] := rfl
@[simp] theorem chunks_data (c : Bytes) (r : List RecvOutcome) : chunks (.data c :: r) = c :: chunks r := rfl
@[simp] theorem chunks_interrupted (r : List RecvOutcome) : chunks (.interrupted :: r) = chunks r := rfl
@[simp] theorem chunks_wouldBlock (r : List RecvOutcome) : chunks (.wouldBlock :: r) = chunks r := rfl

@[simp] theorem chunks_append (a b : List RecvOutcome) : chunks (a ++ b) = chunks a ++ chunks b := by
  simp [chunks]

@[simp] theorem chunks_map_data (cs : List Bytes) : chunks (cs.map .data) = cs := by
  induction cs with
  | nil => rfl
  | cons c cs ih => rw [List.map_cons, chunks_data, ih]

namespace Connection

/-- What `read_some` returns: -1, or the bytes read. -/
inductive ReadResult where
  | error
  | bytes (c : Bytes)
  deriving DecidableEq

/-- The results of successive `read_some` calls, each of which retries over interrupts. -/
def readSome : List RecvOutcome → List ReadResult
  | [] => []
  | .data c :: rest => .bytes c :: readSome rest
  | .interrupted :: rest => readSome rest
  | .wouldBlock :: rest => .error :: readSome rest
  | .failed :: rest => .error :: readSome rest

/-- How `write_all` ends; a broken socket raises SIGPIPE. -/
inductive WriteResult where
  | success
  | failure
  | killed
  deriving DecidableEq

/-- The result of `write_all`, the pieces the kernel took and the outcomes not used. -/
structure Written where
  result : WriteResult
  pieces : List Bytes
  sends : List SendOutcome

/-- The loop of `write_all`. -/
def writeLoop (data : Bytes) (totalWritten remaining : Nat) (sends : List SendOutcome) : Written :=
  if 0 < remaining then
    match sends with
    | [] => ⟨.success, [data.drop totalWritten], []⟩
    | .sent n :: sends =>
      let bytes := min n remaining
      let rest := writeLoop data (totalWritten + bytes) (remaining - bytes) sends
      { rest with pieces := (data.drop totalWritten).take bytes :: rest.pieces }
    | .interrupted :: sends => writeLoop data totalWritten remaining sends
    | .wouldBlock :: sends | .failed :: sends => ⟨.failure, [], sends⟩
    | .broken :: sends => ⟨.killed, [], sends⟩
  else ⟨.success, [], sends⟩

def writeAll (data : Bytes) (sends : List SendOutcome) : Written :=
  writeLoop data 0 data.length sends

end Connection

end HttpServer
