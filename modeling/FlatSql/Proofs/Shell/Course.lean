import FlatSql.Proofs.Shell.Lines

/-!
# The course of a session

A session takes the lines of its input one by one. It passes over blank lines, hands every other one
to its handler as the query that the line says, and shows what the handler answers. It ends with the
first line that says so or is no text, with the end of the input, or with the handler's notice that
the other side has closed; the line of the notice is the last one that is taken.

The course of a session is said here as a whole, by conditions on its events and on what is left of
the input, without a loop. The conditions admit one course, whatever the input and the handler are,
and the session is what that course shows. That the handler is asked exactly the queries of the
course, in their order, is said with a handler that writes them down.

## Main definitions

* `Shell.Event`, `Shell.Ending`, `Shell.Course` — what becomes of lines, and how a session ends
* `Shell.consult` — a handler asked one query after another
* `Shell.Course.Of` — the course of a session
* `Shell.Handler.recorded` — a handler that writes down its queries

## Main results

* `Shell.of_iff` — lines and a handler have one course
* `Shell.runLines_eq` — a session shows its course
* `Shell.run_exact` — both, for every input and every handler
-/

namespace FlatSql

namespace Shell

/-! ### Events and endings -/

/-- A line that a session takes, and what becomes of it. A line that ends the session is not among
them; it stays in the rest. -/
inductive Event where
  | blank (line : List UInt8)
  | handled (line : List UInt8) (query : String) (answer : Except Error (Option String))

namespace Event

/-- The line itself, with the bytes that end it. -/
def line : Event → List UInt8
  | blank line => line
  | handled line .. => line

/-- What the line has to be. An event on another line is no part of any course. -/
def meaning : Event → Meaning
  | blank _ => .blank
  | handled _ query _ => .query query

/-- The query that the handler is asked, if it is asked one. -/
def query? : Event → Option String
  | blank _ => none
  | handled _ query _ => some query

/-- What the handler answers, if it is asked. -/
def answer? : Event → Option (Except Error (Option String))
  | blank _ => none
  | handled _ _ answer => some answer

/-- The handler notes that the other side has closed. Such an event is the last one of its session.
-/
def closes : Event → Bool
  | handled _ _ (.ok none) => true
  | _ => false

/-- What is shown for the line: a prompt before it is read, and the answer to its query. An error is
shown like an answer and does not end the session. -/
def shown : Event → String
  | blank _ => prompt
  | handled _ _ (.ok (some reply)) => prompt ++ (reply ++ "\n")
  | handled _ _ (.error cause) => prompt ++ ("Error: " ++ cause.message ++ "\n")
  | handled _ _ (.ok none) => prompt ++ "Server closed the connection.\n"

end Event

/-- How a session ends. The four endings exclude each other, and every session comes to one of them.
-/
inductive Ending where
  /-- With an answer that the other side has closed. -/
  | closed
  | endOfInput
  /-- With a line that ends the session. -/
  | left
  /-- With a line that is no text. -/
  | unreadable

namespace Ending

/-- What is shown after all events: a prompt, unless the other side has closed, and a farewell where
the input ends or is left. -/
def shown : Ending → String
  | closed => ""
  | endOfInput | left => prompt ++ "Closing connection...\n"
  | unreadable => prompt

/-- What comes of the whole session. Only a line that is no text is an error. -/
def outcome : Ending → Except Error Unit
  | closed | endOfInput | left => .ok ()
  | unreadable => .error (.stream "stream did not contain valid UTF-8")

/-- Whether a session that has taken the lines of these events ends so before the rest. No event but
the last may close, as the session would have ended there. -/
def Meets : Ending → List Event → List (List UInt8) → Prop
  | closed, events, _ => ∃ before last, events = before ++ [last] ∧ last.closes = true ∧
      ∀ event ∈ before, event.closes = false
  | endOfInput, events, rest => (∀ event ∈ events, event.closes = false) ∧ rest = []
  | left, events, rest => (∀ event ∈ events, event.closes = false) ∧
      ∃ line more, rest = line :: more ∧ Means line .leaving
  | unreadable, events, rest => (∀ event ∈ events, event.closes = false) ∧
      ∃ line more, rest = line :: more ∧ Means line .unreadable

end Ending

/-! ### Courses -/

variable {σ : Type}

/-- A handler asked one query after another: its answers, and the state that it leaves. This is the
handler on its own, without lines or prompts. -/
def consult (handler : Handler σ) : List String → σ → List (Except Error (Option String)) × σ
  | [], s => ([], s)
  | query :: queries, s =>
    let (answer, s') := handler query s
    let (answers, s'') := consult handler queries s'
    (answer :: answers, s'')

/-- What a session does with its lines: those it takes, those it leaves, and how it ends. `Of` says
which course is that of given lines. -/
structure Course where
  events : List Event
  rest : List (List UInt8)
  ending : Ending

namespace Course

/-- The queries of the course in their order. Blank lines have none. -/
def queries (c : Course) : List String := c.events.filterMap Event.query?

/-- The answers of the course in their order, one for each query. -/
def answers (c : Course) : List (Except Error (Option String)) := c.events.filterMap Event.answer?

/-- What is shown, and how the session ends. The events are shown one after another, and the ending
adds what it has to say. -/
def transcript (c : Course) : Transcript :=
  ⟨String.join (c.events.map Event.shown) ++ c.ending.shown, c.ending.outcome⟩

/-- The course of a session on lines. Nothing here runs through the lines: each part is a condition
on the whole course. -/
structure Of (c : Course) (handler : Handler σ) (ls : List (List UInt8)) (s : σ) : Prop where
  /-- The events take the first lines, one after another. -/
  lines_eq : ls = c.events.map Event.line ++ c.rest
  /-- A line is taken for what it is. -/
  means : ∀ event ∈ c.events, Means event.line event.meaning
  /-- The handler answers the queries one after another. -/
  answers_eq : c.answers = (consult handler c.queries s).1
  ends : c.ending.Meets c.events c.rest

/-- The course with one more event in front. Its rest and its ending are those it had. -/
def after (event : Event) (c : Course) : Course := ⟨event :: c.events, c.rest, c.ending⟩

end Course

/-- The course of a session, line by line. It is how the one course that meets the conditions of
`Of` is found. -/
def course (handler : Handler σ) : List (List UInt8) → σ → Course
  | [], _ => ⟨[], [], .endOfInput⟩
  | line :: more, s =>
    match meaning line with
    | .unreadable => ⟨[], line :: more, .unreadable⟩
    | .leaving => ⟨[], line :: more, .left⟩
    | .blank => (course handler more s).after (.blank line)
    | .query query =>
      let event := Event.handled line query (handler query s).1
      if event.closes then ⟨[event], more, .closed⟩
      else (course handler more (handler query s).2).after event

/-! ### One event after another -/

theorem meets_cons_iff {ending : Ending} {event : Event} (h : event.closes = false)
    {events : List Event} {rest : List (List UInt8)} :
    ending.Meets (event :: events) rest ↔ ending.Meets events rest := by
  cases ending with
  | closed =>
    constructor
    · rintro ⟨_ | ⟨first, before⟩, last, heq, hlast, hbefore⟩
      · obtain ⟨rfl, -⟩ := List.cons.inj heq
        rw [h] at hlast
        cases hlast
      · obtain ⟨rfl, rfl⟩ := List.cons.inj heq
        exact ⟨before, last, rfl, hlast, fun e he => hbefore e (List.mem_cons_of_mem _ he)⟩
    · rintro ⟨before, last, rfl, hlast, hbefore⟩
      exact ⟨event :: before, last, rfl, hlast, List.forall_mem_cons.mpr ⟨h, hbefore⟩⟩
  | endOfInput | left | unreadable =>
    simp only [Ending.Meets, List.forall_mem_cons, h, true_and]

theorem meets_cons_closes_iff {ending : Ending} {event : Event} (h : event.closes = true)
    {events : List Event} {rest : List (List UInt8)} :
    ending.Meets (event :: events) rest ↔ ending = .closed ∧ events = [] := by
  cases ending with
  | closed =>
    constructor
    · rintro ⟨_ | ⟨first, before⟩, last, heq, hlast, hbefore⟩
      · exact ⟨rfl, (List.cons.inj heq).2⟩
      · obtain ⟨rfl, -⟩ := List.cons.inj heq
        rw [hbefore event (by simp)] at h
        cases h
    · rintro ⟨-, rfl⟩
      exact ⟨[], event, rfl, h, nofun⟩
  | endOfInput | left | unreadable =>
    simp [Ending.Meets, h]

section Of

variable {handler : Handler σ} {line : List UInt8} {ls more : List (List UInt8)} {s : σ}
variable {events : List Event} {rest : List (List UInt8)} {ending : Ending}

open Course (Of)

theorem of_nil_iff : Of ⟨[], rest, ending⟩ handler ls s ↔ ls = rest ∧ ending.Meets [] rest :=
  ⟨fun h => ⟨h.lines_eq, h.ends⟩, fun ⟨hl, he⟩ => ⟨hl, nofun, rfl, he⟩⟩

/-- A blank line is passed over. The handler is not asked, and the rest is a course from the same
state. -/
theorem of_blank_iff : Of ⟨.blank line :: events, rest, ending⟩ handler ls s ↔
    ∃ more, ls = line :: more ∧ Means line .blank ∧ Of ⟨events, rest, ending⟩ handler more s := by
  constructor
  · intro h
    obtain ⟨hline, hmeans⟩ := List.forall_mem_cons.mp h.means
    exact ⟨_, h.lines_eq, hline, rfl, hmeans, h.answers_eq, (meets_cons_iff rfl).mp h.ends⟩
  · rintro ⟨more, rfl, hline, h⟩
    exact ⟨congrArg _ h.lines_eq, List.forall_mem_cons.mpr ⟨hline, h.means⟩, h.answers_eq,
      (meets_cons_iff rfl).mpr h.ends⟩

/-- A query is answered, and the session goes on unless the other side has closed. The next lines
meet the state that the handler has left. -/
theorem of_handled_iff {query : String} {answer : Except Error (Option String)}
    (hc : (Event.handled line query answer).closes = false) :
    Of ⟨.handled line query answer :: events, rest, ending⟩ handler ls s ↔
      ∃ more, ls = line :: more ∧ Means line (.query query) ∧ answer = (handler query s).1 ∧
        Of ⟨events, rest, ending⟩ handler more (handler query s).2 := by
  constructor
  · intro h
    obtain ⟨hline, hmeans⟩ := List.forall_mem_cons.mp h.means
    obtain ⟨hanswer, hanswers⟩ := List.cons.inj h.answers_eq
    exact ⟨_, h.lines_eq, hline, hanswer, rfl, hmeans, hanswers, (meets_cons_iff hc).mp h.ends⟩
  · rintro ⟨more, rfl, hline, rfl, h⟩
    exact ⟨congrArg _ h.lines_eq, List.forall_mem_cons.mpr ⟨hline, h.means⟩,
      congrArg _ h.answers_eq, (meets_cons_iff hc).mpr h.ends⟩

/-- A query is the last one if the answer is that the other side has closed. The lines behind it
stay unread. -/
theorem of_handled_closes_iff {query : String} {answer : Except Error (Option String)}
    (hc : (Event.handled line query answer).closes = true) :
    Of ⟨.handled line query answer :: events, rest, ending⟩ handler ls s ↔
      ls = line :: rest ∧ Means line (.query query) ∧ answer = (handler query s).1 ∧
        ending = .closed ∧ events = [] := by
  constructor
  · intro h
    obtain ⟨hending, rfl⟩ := (meets_cons_closes_iff hc).mp h.ends
    have hline := h.means (.handled line query answer) (List.mem_singleton_self _)
    exact ⟨h.lines_eq, hline, (List.cons.inj h.answers_eq).1, hending, rfl⟩
  · rintro ⟨rfl, hline, rfl, rfl, rfl⟩
    exact ⟨rfl, List.forall_mem_singleton.mpr hline, rfl, (meets_cons_closes_iff hc).mpr ⟨rfl, rfl⟩⟩

theorem of_course (handler : Handler σ) (ls : List (List UInt8)) (s : σ) :
    (course handler ls s).Of handler ls s := by
  induction ls generalizing s with
  | nil => exact of_nil_iff.mpr ⟨rfl, nofun, rfl⟩
  | cons line more ih =>
    have hmeans := means_meaning line
    rw [course]
    cases hm : meaning line with
    | unreadable => exact of_nil_iff.mpr ⟨rfl, nofun, line, more, rfl, hm ▸ hmeans⟩
    | leaving => exact of_nil_iff.mpr ⟨rfl, nofun, line, more, rfl, hm ▸ hmeans⟩
    | blank => exact of_blank_iff.mpr ⟨more, rfl, hm ▸ hmeans, ih s⟩
    | query query =>
      dsimp only
      split
      · next hc => exact (of_handled_closes_iff hc).mpr ⟨rfl, hm ▸ hmeans, rfl, rfl, rfl⟩
      · next hc =>
        exact (of_handled_iff (Bool.eq_false_iff.mpr hc)).mpr ⟨more, rfl, hm ▸ hmeans, rfl, ih _⟩

/-- **Lines and a handler have one course.** The induction is on the lines; what the first line
means leaves one event or one ending for it. -/
theorem of_iff {c : Course} : c.Of handler ls s ↔ c = course handler ls s := by
  refine ⟨fun h => ?_, fun h => h ▸ of_course handler ls s⟩
  obtain ⟨events, rest, ending⟩ := c
  induction events generalizing ls s with
  | nil =>
    -- no line is taken: the ending says what the next one is
    obtain ⟨rfl, hends⟩ := of_nil_iff.mp h
    cases ending with
    | closed =>
      obtain ⟨before, last, heq, -⟩ := hends
      simp at heq
    | endOfInput =>
      obtain ⟨-, rfl⟩ := hends
      rfl
    | left =>
      obtain ⟨-, line, more, rfl, hline⟩ := hends
      rw [course, ← means_iff.mp hline]
    | unreadable =>
      obtain ⟨-, line, more, rfl, hline⟩ := hends
      rw [course, ← means_iff.mp hline]
  | cons event events ih =>
    cases event with
    | blank line =>
      obtain ⟨more, rfl, hline, hmore⟩ := of_blank_iff.mp h
      rw [course, ← means_iff.mp hline, ← ih hmore]
      rfl
    | handled line query answer =>
      cases hc : (Event.handled line query answer).closes with
      | true =>
        obtain ⟨rfl, hline, rfl, rfl, rfl⟩ := (of_handled_closes_iff hc).mp h
        rw [course, ← means_iff.mp hline]
        exact (if_pos hc).symm
      | false =>
        obtain ⟨more, rfl, hline, rfl, hmore⟩ := (of_handled_iff hc).mp h
        rw [course, ← means_iff.mp hline]
        dsimp only
        rw [if_neg (by simp [hc]), ← ih hmore]
        rfl

end Of

/-! ### Sessions -/

theorem transcript_after (event : Event) (c : Course) : (c.after event).transcript =
    ⟨event.shown ++ c.transcript.output, c.transcript.ending⟩ := by
  simp only [Course.transcript, Course.after, List.map_cons, String.join_cons, String.append_assoc]

theorem transcript_nil (rest : List (List UInt8)) (ending : Ending) :
    Course.transcript ⟨[], rest, ending⟩ = ⟨ending.shown, ending.outcome⟩ := by
  simp [Course.transcript]

theorem consult_cons {handler : Handler σ} {query : String} {s s' : σ}
    {answer : Except Error (Option String)} (h : handler query s = (answer, s'))
    (queries : List String) : consult handler (query :: queries) s =
      (answer :: (consult handler queries s').1, (consult handler queries s').2) := by
  rw [consult, h]

theorem queries_after_handled (line : List UInt8) (query : String)
    (answer : Except Error (Option String)) (c : Course) :
    (c.after (.handled line query answer)).queries = query :: c.queries := rfl

section Turns

variable {handler : Handler σ} {line : List UInt8} {s s' : σ} {output query : String}
variable {answer : Except Error (Option String)}

theorem course_cons_query (hm : meaning line = .query query) (hh : handler query s = (answer, s'))
    (hc : (Event.handled line query answer).closes = false) (more : List (List UInt8)) :
    course handler (line :: more) s =
      (course handler more s').after (.handled line query answer) := by
  rw [course, hm]
  simp only [hh, hc, Bool.false_eq_true, if_false]

theorem course_cons_closed (hm : meaning line = .query query)
    (hh : handler query s = (.ok none, s')) (more : List (List UInt8)) :
    course handler (line :: more) s =
      Course.after (.handled line query (.ok none)) ⟨[], more, .closed⟩ := by
  rw [course, hm]
  simp only [hh, Event.closes, if_true]
  rfl

theorem runLines_cons_prompt (h : turn handler line s = (⟨output, .prompt⟩, s'))
    (more : List (List UInt8)) : runLines handler (line :: more) s =
      (⟨prompt ++ output ++ (runLines handler more s').1.output,
        (runLines handler more s').1.ending⟩, (runLines handler more s').2) := by
  rw [runLines, h]

theorem runLines_cons_finished (h : turn handler line s = (⟨output, .finished⟩, s'))
    (more : List (List UInt8)) :
    runLines handler (line :: more) s = (⟨prompt ++ output, .ok ()⟩, s') := by
  rw [runLines, h]

theorem runLines_cons_broken {cause : Error}
    (h : turn handler line s = (⟨output, .broken cause⟩, s')) (more : List (List UInt8)) :
    runLines handler (line :: more) s = (⟨prompt ++ output, .error cause⟩, s') := by
  rw [runLines, h]

end Turns

/-- **A session shows its course** and leaves the handler as it is after the queries. Together with
`of_iff` this says what is shown without running the session. -/
theorem runLines_eq (handler : Handler σ) (ls : List (List UInt8)) (s : σ) :
    runLines handler ls s =
      ((course handler ls s).transcript, (consult handler (course handler ls s).queries s).2) := by
  induction ls generalizing s with
  | nil =>
    rw [course, transcript_nil]
    rfl
  | cons line more ih =>
    have hturn := turn_eq handler line s
    cases hm : meaning line with
    | unreadable =>
      rw [hm] at hturn
      rw [runLines_cons_broken hturn, course, hm, transcript_nil, String.append_empty]
      rfl
    | leaving =>
      rw [hm] at hturn
      rw [runLines_cons_finished hturn, course, hm, transcript_nil]
      rfl
    | blank =>
      rw [hm] at hturn
      rw [runLines_cons_prompt hturn, ih s, course, hm, transcript_after, String.append_empty]
      rfl
    | query query =>
      rw [hm] at hturn
      cases hh : handler query s with
      | mk answer s' =>
        dsimp only at hturn
        rw [hh] at hturn
        rcases answer with cause | _ | reply
        · rw [runLines_cons_prompt hturn, ih s', course_cons_query hm hh rfl, transcript_after,
            queries_after_handled, consult_cons hh]
          rfl
        · -- the other side has closed: the rest of the lines is left
          rw [runLines_cons_finished hturn, course_cons_closed hm hh, transcript_after,
            transcript_nil, queries_after_handled, consult_cons hh]
          rfl
        · rw [runLines_cons_prompt hturn, ih s', course_cons_query hm hh rfl, transcript_after,
            queries_after_handled, consult_cons hh]
          rfl

/-! ### The queries that the handler gets -/

/-- A handler that writes down its queries. It answers as the handler it is made from. -/
def Handler.recorded (handler : Handler σ) : Handler (σ × List String) := fun query (s, past) =>
  let (answer, s') := handler query s
  (answer, s', past ++ [query])

theorem consult_recorded (handler : Handler σ) (queries : List String) (s : σ)
    (past : List String) : consult handler.recorded queries (s, past) =
      ((consult handler queries s).1, (consult handler queries s).2, past ++ queries) := by
  induction queries generalizing s past with
  | nil => rw [List.append_nil]; rfl
  | cons query queries ih =>
    cases hh : handler query s with
    | mk answer s' =>
      have hr : handler.recorded query (s, past) = (answer, s', past ++ [query]) := by
        rw [Handler.recorded, hh]
      rw [consult_cons hh, consult_cons hr, ih, List.append_assoc, List.singleton_append]

/-- Writing down the queries does not change the course. So the record can be read as what the
handler is asked in any session. -/
theorem course_recorded (handler : Handler σ) (ls : List (List UInt8)) (s : σ)
    (past : List String) : course handler.recorded ls (s, past) = course handler ls s := by
  have h := of_course handler ls s
  refine (of_iff.mp ⟨h.lines_eq, h.means, ?_, h.ends⟩).symm
  rw [consult_recorded]
  exact h.answers_eq

theorem runLines_recorded (handler : Handler σ) (ls : List (List UInt8)) (s : σ) :
    runLines handler.recorded ls (s, []) =
      ((course handler ls s).transcript, (consult handler (course handler ls s).queries s).2,
        (course handler ls s).queries) := by
  rw [runLines_eq, course_recorded, consult_recorded, List.nil_append]

/-- **A session takes the lines of its input in their order**, hands on what each of them says
unless it is blank, shows a prompt before each line and the answer after it, and ends as the course
of the session says: with the first line that ends it or is no text, with the end of the input, or
with a closed connection. The lines and the course are determined by the input and the handler,
which gets the queries of the course in their order and no others. -/
theorem run_exact (handler : Handler σ) (input : List UInt8) (s : σ) :
    ∃ (ls : List (List UInt8)) (c : Course), Lines input ls ∧ c.Of handler ls s ∧
      (∀ ls' c', Lines input ls' → Course.Of c' handler ls' s → ls' = ls ∧ c' = c) ∧
      run handler input s = (⟨banner ++ c.transcript.output, c.transcript.ending⟩,
        (consult handler c.queries s).2) ∧
      run handler.recorded input (s, []) = (⟨banner ++ c.transcript.output, c.transcript.ending⟩,
        (consult handler c.queries s).2, c.queries) := by
  refine ⟨lines input, course handler (lines input) s, lines_spec input,
    of_course handler _ s, fun ls' c' hls hc => ?_, ?_, ?_⟩
  · obtain rfl := lines_iff.mp hls
    exact ⟨rfl, of_iff.mp hc⟩
  · rw [run, runLines_eq]
  · rw [run, runLines_recorded]

end Shell

end FlatSql
