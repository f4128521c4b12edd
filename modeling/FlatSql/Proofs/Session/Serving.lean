import FlatSql.Proofs.Text.Utf8
import FlatSql.Server
import Mathlib.Data.List.SplitLengths
import Mathlib.Tactic.Common

/-!
# Serving is running texts

What a server does with its clients can be read off what their reads and writes meet. Every read
that hands over something is a query by itself, up to the read that ends the session or the reply
that is lost. The engine runs these queries one after another, whichever session they come from, and
each session is sent the answers to its own.

That one buffer takes in all reads of a session does not show: a query is the part of the buffer
that its read has written, so that nothing of an earlier and longer one is left in it.

## Main definitions

* `Client.queries`, `Client.executed` — the queries of a session, and those of them that are run
* `Client.sent`, `Client.ending` — how many replies arrive, and how the session ends
* `Engine.answersTo`, `Engine.afterQueries` — queries run one after another

## Main results

* `Client.queries_texts` — texts arrive as they are sent
* `Engine.answerTo_ne_empty` — every query is answered by a write
* `Engine.converse_eq` — a session, from any place in it
* `Engine.serve_eq` — sessions one after another
* `Engine.serve_undisturbed` — interruptions have no effect
* `Engine.serving` — both
-/

namespace FlatSql

/-! ### What a session meets -/

namespace Incoming

/-- Whether a session ends with a read: it hands over nothing, or fails. An interrupted read is
tried again. -/
def ends : Incoming → Bool
  | bytes chunk => chunk.isEmpty
  | interrupted => false
  | failed _ => true

/-- The text that a read hands over. Bytes that are no text are replaced, so that there is always
one. -/
def text? : Incoming → Option String
  | bytes chunk => some (Utf8.decodeLossy chunk)
  | interrupted | failed _ => none

/-- How a session ends with a read. Only a failure is an error. -/
def outcome : Incoming → Except Error Unit
  | bytes _ | interrupted => .ok ()
  | failed reason => .error (.stream reason)

end Incoming

namespace Client

/-- The queries: what reads hand over before the first with which the session ends. Interruptions
among them hand over nothing. -/
def queries (client : Client) : List String :=
  (client.reads.takeWhile fun read => !read.ends).filterMap Incoming.text?

/-- Why the first reply is lost that is lost. Writes are counted from 0, and each query has one. -/
def lost? (client : Client) : Option String :=
  (List.range client.queries.length).findSome? client.loses

/-- How many replies arrive: those before the first that is lost. Later ones are never written. -/
def sent (client : Client) : Nat :=
  ((List.range client.queries.length).takeWhile fun n => (client.loses n).isNone).length

/-- The queries that are run; the last of them may be one whose reply is lost. It has been run when
its reply is written. -/
def executed (client : Client) : List String := client.queries.take (client.sent + 1)

/-- How the session ends: with the first reply that is lost, or else with the first read that ends
it. -/
def ending (client : Client) : Except Error Unit :=
  match client.lost?, client.reads.find? Incoming.ends with
  | some reason, _ => .error (.stream reason)
  | none, some read => read.outcome
  | none, none => .ok ()

/-- What the client is sent, of the answers to its queries, and how its session ends. The answers
are those of the engine, whoever else has asked it before. -/
def talk (client : Client) (answers : List String) : Conversation :=
  ⟨answers.take client.sent, client.ending⟩

/-- The same client without interruptions. Its other reads and its writes are unchanged. -/
def undisturbed (client : Client) : Client :=
  { client with reads := client.reads.filter (· ≠ .interrupted) }

/-! ### A session without its first read -/

section Cons

variable {chunk : List UInt8} {more : List Incoming} {loses : Nat → Option String} {reason : String}

theorem queries_cons_bytes (h : chunk.isEmpty = false) :
    queries ⟨.bytes chunk :: more, loses⟩ =
      Utf8.decodeLossy chunk :: queries ⟨more, fun n => loses (n + 1)⟩ := by
  simp [queries, Incoming.ends, h, Incoming.text?]

theorem lost?_cons_bytes (h : chunk.isEmpty = false) :
    lost? ⟨.bytes chunk :: more, loses⟩ =
      (loses 0).or (lost? ⟨more, fun n => loses (n + 1)⟩) := by
  rw [lost?, queries_cons_bytes h, List.length_cons, List.range_succ_eq_map, List.findSome?_cons,
    List.findSome?_map]
  dsimp only
  cases loses 0 <;> rfl

theorem sent_cons_bytes (h : chunk.isEmpty = false) :
    sent ⟨.bytes chunk :: more, loses⟩ =
      if (loses 0).isNone then sent ⟨more, fun n => loses (n + 1)⟩ + 1 else 0 := by
  rw [sent, queries_cons_bytes h, List.length_cons, List.range_succ_eq_map, List.takeWhile_cons,
    List.takeWhile_map]
  split
  · rw [List.length_cons, List.length_map]
    rfl
  · rfl

theorem find?_ends_cons_bytes (h : chunk.isEmpty = false) :
    (Incoming.bytes chunk :: more).find? Incoming.ends = more.find? Incoming.ends := by
  rw [List.find?_cons, Incoming.ends, h]

/-- A query whose reply arrives comes before the rest of its session. The writes of the rest are
counted from there. -/
theorem executed_cons_of_none (h : chunk.isEmpty = false) (hsent : loses 0 = none) :
    executed ⟨.bytes chunk :: more, loses⟩ =
      Utf8.decodeLossy chunk :: executed ⟨more, fun n => loses (n + 1)⟩ := by
  rw [executed, sent_cons_bytes h, hsent, queries_cons_bytes h]
  rfl

/-- A query whose reply is lost is the last of its session. What could still be read does not
matter. -/
theorem executed_cons_of_some (h : chunk.isEmpty = false) (hlost : loses 0 = some reason) :
    executed ⟨.bytes chunk :: more, loses⟩ = [Utf8.decodeLossy chunk] := by
  rw [executed, sent_cons_bytes h, hlost, queries_cons_bytes h]
  rfl

theorem ending_cons_of_none (h : chunk.isEmpty = false) (hsent : loses 0 = none) :
    ending ⟨.bytes chunk :: more, loses⟩ = ending ⟨more, fun n => loses (n + 1)⟩ := by
  rw [ending, lost?_cons_bytes h, hsent, find?_ends_cons_bytes h]
  rfl

theorem ending_cons_of_some (h : chunk.isEmpty = false) (hlost : loses 0 = some reason) :
    ending ⟨.bytes chunk :: more, loses⟩ = .error (.stream reason) := by
  rw [ending, lost?_cons_bytes h, hlost]
  rfl

end Cons

end Client

/-! ### Texts as they are sent -/

theorem Incoming.pieces_of_le {data : List UInt8} (h : data.length ≤ bufferSize) :
    pieces data = [.bytes data] := by
  rw [pieces, split, if_pos h, List.map_singleton]

/-- **Texts arrive as they are sent.** Each has to fit into one read, and an empty one would end the
session; that they are decoded with replacements changes nothing, as they were encoded. -/
theorem Client.queries_texts {texts : List String} {loses : Nat → Option String}
    (h : ∀ text ∈ texts, text ≠ "" ∧ (Utf8.encode text).length ≤ Incoming.bufferSize) :
    queries ⟨texts.flatMap fun text => Incoming.pieces (Utf8.encode text), loses⟩ = texts := by
  induction texts generalizing loses with
  | nil => rfl
  | cons text more ih =>
    obtain ⟨hne, hfits⟩ := h text List.mem_cons_self
    have hbytes : (Utf8.encode text).isEmpty = false := by
      refine Bool.eq_false_iff.mpr fun hempty => hne ?_
      rw [← Utf8.decodeLossy_encode text, List.isEmpty_iff.mp hempty]
      rfl
    rw [List.flatMap_cons, Incoming.pieces_of_le hfits, List.singleton_append,
      queries_cons_bytes hbytes, Utf8.decodeLossy_encode,
      ih fun text' hmem => h text' (List.mem_cons_of_mem _ hmem)]

/-! ### Queries one after another -/

namespace Engine

variable {σ : Type} [ByteStore σ]

/-- The answer to a query, or the text of its error. Either is sent in the same way. -/
def answerTo (query : String) (e : Engine σ) : String :=
  match ((execute query).exec e).1 with
  | .ok answer => answer
  | .error cause => "Error: " ++ cause.message

/-- The answers to queries that are run one after another. Each of them meets the engine that the
one before has left. -/
def answersTo : List String → Engine σ → List String
  | [], _ => []
  | query :: more, e => answerTo query e :: answersTo more ((execute query).exec e).2

/-- The engine after queries, one after another. It does not matter which of them failed. -/
def afterQueries (queries : List String) (e : Engine σ) : Engine σ :=
  queries.foldl (fun e query => ((execute query).exec e).2) e

theorem respond_eq (e : Engine σ) (query : String) :
    e.respond query = (answerTo query e, ((execute query).exec e).2) := by
  rw [respond, answerTo]
  rcases (execute query).exec e with ⟨_ | _, _⟩ <;> rfl

theorem ne_empty_of_answer (kind : Option StatementKind) (r : Option ResultSet) :
    ResultSet.answer kind r ≠ "" := by
  unfold ResultSet.answer StatementKind.answer ResultSet.layout
  repeat' split
  all_goals simp [String.append_eq_empty_iff]

/-- No reply is empty, so that every reply is a write, which may fail. This is why writes can be
counted by queries. -/
theorem answerTo_ne_empty (query : String) (e : Engine σ) : answerTo query e ≠ "" := by
  unfold answerTo
  split
  · next answer h =>
    rw [execute, Action.exec_bind] at h
    split at h
    · obtain rfl := Except.ok.inj h
      exact ne_empty_of_answer _ _
    · cases h
  · simp

theorem length_answersTo (queries : List String) (e : Engine σ) :
    (answersTo queries e).length = queries.length := by
  induction queries generalizing e with
  | nil => rfl
  | cons query more ih => rw [answersTo, List.length_cons, List.length_cons, ih]

theorem answersTo_append (first later : List String) (e : Engine σ) :
    answersTo (first ++ later) e = answersTo first e ++ answersTo later (afterQueries first e) := by
  induction first generalizing e with
  | nil => rfl
  | cons query more ih =>
    rw [List.cons_append, answersTo, ih]
    rfl

theorem afterQueries_append (first later : List String) (e : Engine σ) :
    afterQueries (first ++ later) e = afterQueries later (afterQueries first e) :=
  List.foldl_append

/-! ### Sessions -/

/-- What a read has written into the buffer is what it handed over, whatever was there before. The
buffer is not cleared between reads. -/
theorem take_overwriteBytes (buffer chunk : List UInt8) :
    (overwriteBytes buffer 0 chunk).take chunk.length = chunk := by
  rw [overwriteBytes, List.take_zero, List.nil_append, List.take_left]

/-- One query of a session, whose reply arrives or is lost. The buffer that is handed on does not
show in the reply. -/
theorem converse_cons_bytes {chunk : List UInt8} (h : chunk.isEmpty = false)
    (loses : Nat → Option String) (buffer : List UInt8) (more : List Incoming) (sent : Nat)
    (e : Engine σ) : converse loses buffer (.bytes chunk :: more) sent e =
      match loses sent with
      | some reason =>
        (⟨[], .error (.stream reason)⟩, ((execute (Utf8.decodeLossy chunk)).exec e).2)
      | none =>
        let later := converse loses (overwriteBytes buffer 0 chunk) more (sent + 1)
          ((execute (Utf8.decodeLossy chunk)).exec e).2
        (⟨answerTo (Utf8.decodeLossy chunk) e :: later.1.replies, later.1.ending⟩, later.2) := by
  rw [converse, h, if_neg Bool.false_ne_true]
  dsimp only
  cases loses sent <;> rw [take_overwriteBytes, respond_eq]

/-- **A session is its queries, run one after another.** It may be under way, with anything in its
buffer and after any number of replies. -/
theorem converse_eq (loses : Nat → Option String) (buffer : List UInt8) (reads : List Incoming)
    (sent : Nat) (e : Engine σ) {client : Client}
    (hclient : client = ⟨reads, fun n => loses (n + sent)⟩) :
    converse loses buffer reads sent e =
      (client.talk (answersTo client.executed e), afterQueries client.executed e) := by
  subst hclient
  induction reads generalizing buffer sent e with
  | nil => rfl
  | cons read more ih =>
    cases read with
    | interrupted => exact ih buffer sent e
    | failed reason => rfl
    | bytes chunk =>
      cases hchunk : chunk.isEmpty with
      | true =>
        obtain rfl := List.isEmpty_iff.mp hchunk
        rfl
      | false =>
        rw [converse_cons_bytes hchunk]
        cases hloses : loses sent with
        | some reason =>
          have hlost : loses (0 + sent) = some reason := by rw [Nat.zero_add, hloses]
          rw [Client.talk, Client.sent_cons_bytes hchunk, Client.executed_cons_of_some hchunk hlost,
            Client.ending_cons_of_some hchunk hlost, hlost]
          rfl
        | none =>
          have harrives : loses (0 + sent) = none := by rw [Nat.zero_add, hloses]
          -- the writes of the rest are counted from one more
          have hlater : (fun n => loses (n + 1 + sent)) = fun n => loses (n + (sent + 1)) := by
            funext n
            rw [Nat.add_right_comm]
            rfl
          dsimp only
          rw [ih, Client.talk, Client.talk, Client.sent_cons_bytes hchunk,
            Client.executed_cons_of_none hchunk harrives,
            Client.ending_cons_of_none hchunk harrives, harrives, hlater]
          rfl

theorem attend_eq (client : Client) (e : Engine σ) : e.attend client =
    (client.talk (answersTo client.executed e), afterQueries client.executed e) :=
  converse_eq client.loses _ client.reads 0 e rfl

/-- **Sessions one after another are the queries of all of them.** The answers are those to one run
of queries, cut where a session ends, and each client is sent its part. -/
theorem serve_eq (clients : List Client) (e : Engine σ) : e.serve clients =
    (List.zipWith Client.talk clients
      ((clients.map fun client => client.executed.length).splitLengths
        (answersTo (clients.flatMap Client.executed) e)),
      afterQueries (clients.flatMap Client.executed) e) := by
  induction clients generalizing e with
  | nil => rfl
  | cons client more ih =>
    have hlength := length_answersTo client.executed e
    rw [serve, attend_eq, List.map_cons, List.splitLengths_cons, List.flatMap_cons,
      answersTo_append, ← hlength, List.take_left, List.drop_left, List.zipWith_cons_cons,
      afterQueries_append]
    dsimp only
    rw [ih]

/-! ### Interruptions -/

theorem converse_undisturbed (loses : Nat → Option String) (buffer : List UInt8)
    (reads : List Incoming) (sent : Nat) (e : Engine σ) :
    converse loses buffer (reads.filter (· ≠ .interrupted)) sent e =
      converse loses buffer reads sent e := by
  induction reads generalizing buffer sent e with
  | nil => rfl
  | cons read more ih =>
    cases read with
    | interrupted => exact ih buffer sent e
    | failed reason => rfl
    | bytes chunk =>
      rw [List.filter_cons_of_pos (by simp), converse, converse]
      simp only [ih]

/-- **Interruptions have no effect.** Neither the conversations nor the engine after them can tell.
-/
theorem serve_undisturbed (clients : List Client) (e : Engine σ) :
    e.serve (clients.map Client.undisturbed) = e.serve clients := by
  induction clients generalizing e with
  | nil => rfl
  | cons client more ih =>
    have hattend : e.attend client.undisturbed = e.attend client :=
      converse_undisturbed client.loses _ client.reads 0 e
    rw [List.map_cons, serve, serve, hattend]
    simp only [ih]

/-- **Serving is running texts.** Whatever reads and writes meet, serving clients one after another
leaves the engine as it is after the executed queries of all of them, in order, and the answers are
those of that one run. Each client is sent the answers to its own queries up to the first write that
fails, and its session ends with that, or else with the first read that hands over nothing or fails.
So neither where one session ends and the next begins nor an interruption plays a part in what
queries give, and a query that fails is answered like any other. -/
theorem serving (clients : List Client) (e : Engine σ) :
    e.serve clients = (List.zipWith Client.talk clients
      ((clients.map fun client => client.executed.length).splitLengths
        (answersTo (clients.flatMap Client.executed) e)),
      afterQueries (clients.flatMap Client.executed) e) ∧
    e.serve (clients.map Client.undisturbed) = e.serve clients :=
  ⟨serve_eq clients e, serve_undisturbed clients e⟩

end Engine

end FlatSql
