import FlatSql.Engine.Basic
import FlatSql.Text.Utf8

/-!
# Serving sessions

A client sends bytes and gets texts back. Whatever one read hands over is one query, decoded
without ever failing; the reply is the engine's answer or the text of its error. A failing query
does not end a session. It ends when a read hands over nothing, and it breaks off when a read fails
or a reply cannot be sent; the query whose reply is lost has been run.

All reads of a session go into one buffer, at the front of which each leaves what it hands over.
Clients are served one after another by one engine.

## Main definitions

* `Incoming`: what one read meets, and `Incoming.pieces`: how long runs of bytes are read
* `Client`: what the reads from a client and the writes to it meet
* `Engine.respond`: the reply to a query
* `Engine.converse`: the replies of a session, and the engine after it
* `Engine.serve`: sessions one after another
-/

namespace FlatSql

/-- What a read from a client meets. A session is told what all its reads meet, one after another,
as nothing else of the network reaches the engine. -/
inductive Incoming where
  /-- Bytes; none at all at the end of the session. -/
  | bytes (chunk : List UInt8)
  /-- A signal, after which the read is tried again. -/
  | interrupted
  | failed (reason : String)
  deriving DecidableEq, Repr

namespace Incoming

/-- The most bytes that one read hands over. A longer text is cut there, even within a character. -/
def bufferSize : Nat := 4096

/-- Bytes in pieces of the given size, at most `fuel` of them. Only the last piece may be shorter.
-/
def split (size : Nat) : (fuel : Nat) → List UInt8 → List (List UInt8)
  | 0, _ => []
  | fuel + 1, data =>
    if data.length ≤ size then [data]
    else data.take size :: split size fuel (data.drop size)

/-- Bytes as reads hand them over, if the client sends them at once: in pieces that fill the buffer,
and what is left. -/
def pieces (data : List UInt8) : List Incoming :=
  (split bufferSize (data.length + 1) data).map .bytes

end Incoming

/-- What the reads from a client and the writes to it meet. After the last of the reads there is
nothing more. -/
structure Client where
  reads : List Incoming
  /-- Why the reply of a number cannot be sent, counted from zero. -/
  loses : Nat → Option String

/-- What a client was sent, and how its session ended. A failed session ends without a reply that
says so. -/
structure Conversation where
  replies : List String
  ending : Except Error Unit

namespace Engine

variable {σ : Type} [ByteStore σ]

/-- The reply to a query. A failure is a reply like any other, and the session goes on after it. -/
def respond (e : Engine σ) (query : String) : String × Engine σ :=
  match (execute query).exec e with
  | (.ok answer, e') => (answer, e')
  | (.error cause, e') => ("Error: " ++ cause.message, e')

/-- A session: reads go into the buffer and are answered in order, and `loses n` is the failure of
the write of reply number `n`, if it fails. -/
def converse (loses : Nat → Option String) :
    (buffer : List UInt8) → List Incoming → (sent : Nat) → Engine σ → Conversation × Engine σ
  | _, [], _, e => (⟨[], .ok ()⟩, e)
  | buffer, .interrupted :: more, sent, e => converse loses buffer more sent e
  | _, .failed reason :: _, _, e => (⟨[], .error (.stream reason)⟩, e)
  | buffer, .bytes chunk :: more, sent, e =>
    if chunk.isEmpty then (⟨[], .ok ()⟩, e)
    else
      let buffer := overwriteBytes buffer 0 chunk
      let (reply, e') := e.respond (Utf8.decodeLossy (buffer.take chunk.length))
      match loses sent with
      | some reason => (⟨[], .error (.stream reason)⟩, e')
      | none =>
        let (rest, e'') := converse loses buffer more (sent + 1) e'
        (⟨reply :: rest.replies, rest.ending⟩, e'')

/-- The session of a client, with a buffer of its own, so that nothing of another client's texts can
be in it. -/
def attend (client : Client) (e : Engine σ) : Conversation × Engine σ :=
  converse client.loses (List.replicate Incoming.bufferSize 0) client.reads 0 e

/-- The sessions of clients that come one after another, however each of them ends. They share the
engine. -/
def serve : List Client → Engine σ → List Conversation × Engine σ
  | [], e => ([], e)
  | client :: more, e =>
    let (talk, e') := e.attend client
    let (talks, e'') := serve more e'
    (talk :: talks, e'')

end Engine

end FlatSql
