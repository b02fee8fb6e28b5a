import Callwire.C.Client

/-!
# A client and a server on one connection

A session is a list of operations that one thread makes on one client, each finished before the next
begins: a call; a stream that is received to its end; an export stream with its chunks, closed.
`Driver` is the client with the rest of its session, `Entry.runLocal` the handler run by itself, and
`LocalSession` what the operations return when their handlers are run locally.

`Link` is the client and the server with the bytes between them. A party that has begun to write a
frame has appended it to its `out` and does nothing else until the socket has taken its bytes, in
any pieces; on the server the write lock keeps other frames out meanwhile. A party that reads gets
the next bytes in any pieces. `Link.Step` are the steps of the two together.
-/

namespace Callwire.C

open Lib

/-! ## Operations -/

inductive Op where
  | call (func : CString) (args : List Value)
  | stream (func : CString) (args : List Value)
  | exportStream (func : CString) (chunks : List Value)

/-- What the application sees of an operation: a result code and value, or the chunks of a stream
and the result code after them. -/
inductive Outcome where
  | reply (rc : Int) (result : Option Value)
  | stream (chunks : List Value) (rc : Int)

namespace Op

def func : Op → CString
  | .call f _ | .stream f _ | .exportStream f _ => f

/-- The handlers an operation is for. -/
def fits : Op → HandlerKind → Bool
  | .call _ _, k => k = .unary ∨ k = .unaryCtx
  | .stream _ _, k => k = .streamCtx
  | .exportStream _ _, k => k = .clientStreamCtx

/-- The arguments and the items the handler is given; a truth value is 0 or 1. -/
def args : Op → List Value
  | .call _ args | .stream _ args => normalAll args
  | .exportStream _ _ => []

def input : Op → List Item
  | .exportStream _ chunks => chunks.map (fun v => .chunk v.normal) ++ [.fin]
  | _ => []

/-- What a handler that returns `rc` and `result` after emitting `chunks` gives the application. -/
def outcome (op : Op) (chunks : List (Option Value)) (rc : Int) (result : Value) : Outcome :=
  match op with
  | .stream _ _ => .stream (chunks.map fun v => (v.getD .null).normal) (if rc = 0 then 1 else -1)
  | _ => if rc = 0 then .reply 0 (some result.normal) else .reply (-1) none

/-- The name is not exported. -/
def missing : Op → Outcome
  | .stream _ _ => .stream [] (-1)
  | _ => .reply (-1) none

end Op

/-! ## Local runs -/

/-- The handler by itself, after the events it has seen and the chunks it has emitted: `emit` takes
every chunk and `recv` hands out the input in order. The chunks, the result code and the result. -/
def Entry.runLocal (e : Entry) (call : Nat) (args : List Value) :
    (fuel : Nat) → (input : List Item) → List Event → List (Option Value) →
      Option (List (Option Value) × Int × Value)
  | 0, _, _, _ => none
  | fuel + 1, input, events, chunks =>
    match e.fn call args events with
    | .ret rc result => some (chunks, rc, result)
    | .emit chunk => e.runLocal call args fuel input (events ++ [.emitted 0]) (chunks ++ [chunk])
    | .recv =>
      match input with
      | [] => none
      | item :: input => e.runLocal call args fuel input (events ++ [.received item]) chunks

theorem Entry.runLocal_succ (e : Entry) (call : Nat) (args : List Value) (fuel : Nat)
    (input : List Item) (events : List Event) (chunks : List (Option Value)) :
    e.runLocal call args (fuel + 1) input events chunks =
      match e.fn call args events with
      | .ret rc result => some (chunks, rc, result)
      | .emit chunk => e.runLocal call args fuel input (events ++ [.emitted 0]) (chunks ++ [chunk])
      | .recv =>
        match input with
        | [] => none
        | item :: input => e.runLocal call args fuel input (events ++ [.received item]) chunks := by
  cases input <;> rfl

/-- The outcomes of a session with local handlers; `call` numbers the handler calls. -/
inductive LocalSession (entries : List Entry) : (call : Nat) → List Op → List Outcome → Prop
  | nil {call : Nat} : LocalSession entries call [] []
  | missing {call : Nat} {op : Op} {ops : List Op} {os : List Outcome}
      (he : findHandler entries op.func.bytes = none) (h : LocalSession entries call ops os) :
      LocalSession entries call (op :: ops) (op.missing :: os)
  | found {call fuel : Nat} {op : Op} {ops : List Op} {os : List Outcome} {e : Entry}
      {chunks : List (Option Value)} {rc : Int} {result : Value}
      (he : findHandler entries op.func.bytes = some e)
      (hr : e.runLocal call op.args fuel op.input [] [] = some (chunks, rc, result))
      (h : LocalSession entries (call + 1) ops os) :
      LocalSession entries call (op :: ops) (op.outcome chunks rc result :: os)

/-! ## The driver -/

/-- How far the current operation is. -/
inductive Phase where
  | start
  | receiving (id : BitVec 64) (chunks : List Value)
  | sending (id : BitVec 64) (rest : List Value)

/-- A client with its session; the current operation comes first. -/
structure Driver where
  client : Client
  ops : List Op
  phase : Phase
  results : List Outcome

namespace Driver

def init (ops : List Op) : Driver := ⟨.connect, ops, .start, []⟩

/-- The API call the application makes next. -/
def next (d : Driver) : Option Api :=
  match d.ops with
  | [] => none
  | op :: _ =>
    some <| match op, d.phase with
    | .call f args, _ => .call (some f) args
    | .stream _ _, .receiving id _ => .streamRecv id
    | .stream f args, _ => .streamBegin (some f) args
    | .exportStream _ _, .sending id (v :: _) => .exportStreamSend id (some v)
    | .exportStream _ _, .sending id [] => .exportStreamClose id
    | .exportStream f _, _ => .exportStreamBegin (some f)

def finish (d : Driver) (o : Outcome) : Driver :=
  { d with ops := d.ops.tail, phase := .start, results := d.results ++ [o] }

/-- The application goes on with what its call returned. -/
def onReturn (d : Driver) (ret : Return) : Driver :=
  match d.ops, d.phase, ret with
  | .call _ _ :: _, _, .rc rc out => d.finish (.reply rc out)
  | .stream _ _ :: _, .receiving id chunks, .rc rc out =>
    if rc = 0 then { d with phase := .receiving id (chunks ++ out.toList) }
    else d.finish (.stream chunks rc)
  | .stream _ _ :: _, _, .id id =>
    if id = 0 then d.finish (.stream [] (-1)) else { d with phase := .receiving id [] }
  | .exportStream _ _ :: _, .sending id (_ :: rest), .rc rc _ =>
    if rc = 0 then { d with phase := .sending id rest } else d.finish (.reply rc none)
  | .exportStream _ _ :: _, .sending _ [], .rc rc out => d.finish (.reply rc out)
  | .exportStream _ chunks :: _, _, .id id =>
    if id = 0 then d.finish (.reply (-1) none) else { d with phase := .sending id chunks }
  | _, _, _ => d

/-- The client has moved; if its call has returned, the application goes on. -/
def settle (d : Driver) (c : Client) : Driver :=
  match c.waiting, c.trace.getLast? with
  | none, some (.returned r) => { d with client := c }.onReturn r.ret
  | _, _ => { d with client := c }

/-- The next API call, up to its read or its return. -/
def invoke (d : Driver) : Option Driver :=
  match d.client.waiting, d.next with
  | none, some api => some (d.settle (d.client.invoke api true))
  | _, _ => none

/-- The waiting API call reads a frame. -/
def read (d : Driver) (payload : Payload) : Option Driver :=
  match d.client.waiting with
  | some (api, id) => some (d.settle (d.client.read api id (some payload)))
  | none => none

end Driver

/-! ## The bytes -/

/-- The bytes of a frame. -/
def Outgoing.wire (m : Outgoing) : Bytes := (m.payload.bind callwireFramingWriteFrame).getD []

def wireBytes (out : List Outgoing) : Bytes := out.flatMap Outgoing.wire

/-- One direction: how many bytes `send` has taken and `recv` has returned, and where
`callwire_framing_read_frame` stands. -/
structure Pipe where
  sent : Nat
  got : Nat
  reader : FrameReader

/-- Who writes on the server. -/
inductive Party where
  | loop
  | thread (i : Nat)
  deriving DecidableEq

def Label.party : Label → Party
  | .thread i _ => .thread i
  | _ => .loop

/-- The two ends; `writer` has written the server's last frame. -/
structure Link where
  driver : Driver
  server : Conn
  up : Pipe
  down : Pipe
  writer : Party

namespace Link

def init (ops : List Op) : Link := ⟨.init ops, .init, ⟨0, 0, .start⟩, ⟨0, 0, .start⟩, .loop⟩

def upBytes (s : Link) : Bytes := wireBytes s.driver.client.out
def downBytes (s : Link) : Bytes := wireBytes s.server.out

/-- The client is not in `send`. -/
def clientFree (s : Link) : Prop := s.up.sent = s.upBytes.length

/-- The party is not in `send`. -/
def free (s : Link) (p : Party) : Prop := s.writer = p → s.down.sent = s.downBytes.length

/-- The next `n` bytes of a direction. -/
def slice (bytes : Bytes) (p : Pipe) (n : Nat) : Bytes := (bytes.drop p.got).take n

inductive Step (entries : List Entry) (s : Link) : Link → Prop
  | sendUp (n : Nat) (hn : 0 < n) (hle : s.up.sent + n ≤ s.upBytes.length) :
      Step entries s { s with up := { s.up with sent := s.up.sent + n } }
  | sendDown (n : Nat) (hn : 0 < n) (hle : s.down.sent + n ≤ s.downBytes.length) :
      Step entries s { s with down := { s.down with sent := s.down.sent + n } }
  /-- the read loop gets a part of a frame -/
  | recvUp {r : FrameReader} (n : Nat) (hn : 0 < n) (hw : n ≤ s.up.reader.want)
      (hle : s.up.got + n ≤ s.up.sent) (hl : s.server.loop = .reading) (hfree : s.free .loop)
      (hf : s.up.reader.feed (slice s.upBytes s.up n) = .more r) :
      Step entries s { s with up := { s.up with got := s.up.got + n, reader := r } }
  /-- the read loop gets the end of a frame -/
  | deliver {p : Payload} {c : Conn} (n : Nat) (hn : 0 < n) (hw : n ≤ s.up.reader.want)
      (hle : s.up.got + n ≤ s.up.sent) (hfree : s.free .loop)
      (hf : s.up.reader.feed (slice s.upBytes s.up n) = .done p)
      (h : step entries s.server (.frame p) = some c) :
      Step entries s
        { s with server := c, up := { s.up with got := s.up.got + n, reader := .start } }
  | recvDown {r : FrameReader} (n : Nat) (hn : 0 < n) (hw : n ≤ s.down.reader.want)
      (hle : s.down.got + n ≤ s.down.sent) (hl : s.driver.client.waiting ≠ none)
      (hfree : s.clientFree)
      (hf : s.down.reader.feed (slice s.downBytes s.down n) = .more r) :
      Step entries s { s with down := { s.down with got := s.down.got + n, reader := r } }
  | read {p : Payload} {d : Driver} (n : Nat) (hn : 0 < n) (hw : n ≤ s.down.reader.want)
      (hle : s.down.got + n ≤ s.down.sent) (hfree : s.clientFree)
      (hf : s.down.reader.feed (slice s.downBytes s.down n) = .done p)
      (h : s.driver.read p = some d) :
      Step entries s
        { s with driver := d, down := { s.down with got := s.down.got + n, reader := .start } }
  | invoke {d : Driver} (hfree : s.clientFree) (h : s.driver.invoke = some d) :
      Step entries s { s with driver := d }
  /-- the read loop or a thread moves without writing -/
  | own {l : Label} {c : Conn} (hl : l = .loop true ∨ ∃ i, l = .thread i true)
      (hfree : s.free l.party) (h : step entries s.server l = some c)
      (hout : c.out = s.server.out) : Step entries s { s with server := c }
  /-- the read loop or a thread takes the write lock and begins a frame -/
  | write {l : Label} {c : Conn} {m : Outgoing} (hl : l = .loop true ∨ ∃ i, l = .thread i true)
      (hlock : s.down.sent = s.downBytes.length) (h : step entries s.server l = some c)
      (hout : c.out = s.server.out ++ [m]) :
      Step entries s { s with server := c, writer := l.party }

end Link

end Callwire.C
