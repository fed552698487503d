import SharpLint.Session.Session

/-!
# The Texts of a Session

An editor sends messages about many documents over one connection. Each message
is handled with the texts that the messages before it have left behind, and the
files on disk may change between two messages. The session keeps of each
document the last text that a message carried, until the document is closed; so
what it says about a document is told by the messages about that document alone.

## Main definitions

* `Message.document?`: the document that a message is about.
* `Message.text?`: the text that a message carries.
* `carried?`: the last text that was carried of a document.
* `Session.Step`: a message, and the disk that it meets.
* `Session.transcript`: the messages of a session with the replies to them.
* `Session.answer`: what is said about a text.
* `Session.Tracks`: a session has the texts that the messages carried.

## Theorems

* `carried?_eq_some_iff`: What the last text is.
* `Session.Tracks.take`: A message is answered from the texts, and tells one.
* `Session.Tracks.transcript_filter`: The messages about other documents may be
  left out.
* `Session.begun_tracks_documents`: A session tracks the texts of all documents,
  and keeps them apart.
-/

namespace SharpLint

/-! ### Messages about documents -/

namespace Message

/-- The document that a message is about. -/
def document? : Message → Option Address
  | .opened address _ _ | .changed address _ _ | .saved address _ | .closed address
  | .codeActions address _ => some address
  | _ => none

/-- The text that a message carries of its document; of a change, the last. -/
def text? : Message → Option Text
  | .opened _ text _ => some text
  | .changed _ texts _ => texts.getLast?
  | .saved _ text => text
  | _ => none

/-- Whether a message opens or closes its document. -/
def opensOrCloses : Message → Bool
  | .opened .. | .closed _ => true
  | _ => false

/-- Whether a message about the document carries a text of it, opens it or
    closes it. -/
def settles (address : Address) (message : Message) : Bool :=
  message.document? = some address && (message.text?.isSome || message.opensOrCloses)

end Message

/-- The document that a notice is about. -/
def Notice.document? : Notice → Option Address
  | .log _ => none
  | .diagnostics address _ _ => some address

/-- The last text that a message carried of a document since the document was
    last opened or closed. What opens a document carries its text. -/
def carried? (address : Address) (messages : List Message) : Option Text :=
  (messages.reverse.find? (·.settles address)).bind Message.text?

theorem carried?_concat (address : Address) (messages : List Message) (message : Message) :
    carried? address (messages ++ [message])
      = if message.settles address then message.text? else carried? address messages := by
  rw [carried?, List.reverse_append, List.reverse_singleton, List.singleton_append, List.find?_cons]
  cases message.settles address with
  | true => rfl
  | false => rfl

/-- The last text was carried by a message behind which no message about the
    document carries a text, opens the document or closes it. -/
theorem carried?_eq_some_iff {address : Address} {messages : List Message} {text : Text} :
    carried? address messages = some text ↔ ∃ before message after,
      messages = before ++ message :: after ∧ message.document? = some address
        ∧ message.text? = some text ∧ ∀ later ∈ after, later.document? = some address →
          later.text? = none ∧ later.opensOrCloses = false := by
  have hsettles (later : Message) : later.settles address = false ↔
      (later.document? = some address → later.text? = none ∧ later.opensOrCloses = false) := by
    simp only [Message.settles, Bool.and_eq_false_imp, decide_eq_true_eq, Bool.or_eq_false_iff,
      Option.isSome_eq_false_iff, Option.isNone_iff_eq_none]
  rw [carried?, Option.bind_eq_some_iff]
  constructor
  · -- The messages are searched from the last one back.
    rintro ⟨message, hfound, htext⟩
    obtain ⟨hmessage, after, before, hsplit, hafter⟩ := List.find?_eq_some_iff_append.1 hfound
    refine ⟨before.reverse, message, after.reverse, ?_, ?_, htext, fun later hlater => ?_⟩
    · rw [← List.reverse_reverse messages, hsplit, List.reverse_append, List.reverse_cons,
        List.append_assoc, List.singleton_append]
    · rw [Message.settles, Bool.and_eq_true, decide_eq_true_eq] at hmessage
      exact hmessage.1
    · have hnot := hafter later (List.mem_reverse.1 hlater)
      rw [Bool.not_eq_true'] at hnot
      exact (hsettles later).1 hnot
  · rintro ⟨before, message, after, rfl, hmessage, htext, hafter⟩
    refine ⟨message, List.find?_eq_some_iff_append.2 ⟨?_, after.reverse, before.reverse, ?_, ?_⟩,
      htext⟩
    · simp only [Message.settles, hmessage, htext, decide_true, Option.isSome_some, Bool.true_or,
        Bool.and_self]
    · rw [List.reverse_append, List.reverse_cons, List.append_assoc, List.singleton_append]
    · intro later hlater
      rw [Bool.not_eq_true']
      exact (hsettles later).2 (hafter later (List.mem_reverse.1 hlater))

namespace Session

/-! ### Sessions that run -/

/-- A message, and the disk as it is when the message comes. -/
structure Step where
  disk : Disk
  message : Message

/-- The answer to a message with the disk that it meets, and the state after
    it. -/
def take (session : Session) (step : Step) : Session × Reply :=
  handle { session with disk := step.disk } step.message

/-- The state after all messages. -/
def after (session : Session) (steps : List Step) : Session :=
  steps.foldl (fun session step => (session.take step).1) session

/-- The messages in turn, with the replies to them. -/
def transcript (session : Session) : List Step → List (Message × Reply)
  | [] => []
  | step :: steps => (step.message, (session.take step).2) :: (session.take step).1.transcript steps

/-- The state once an editor has begun the session in a folder. -/
def begun (disk : Disk) (root : Option Address) : Session :=
  (((start disk).handle (.start root)).1.handle .started).1

theorem transcript_append (session : Session) (a b : List Step) :
    session.transcript (a ++ b) = session.transcript a ++ (session.after a).transcript b := by
  induction a generalizing session with
  | nil => rfl
  | cons step a ih =>
      rw [List.cons_append, transcript, transcript, ih]
      rfl

theorem length_transcript (session : Session) (steps : List Step) :
    (session.transcript steps).length = steps.length := by
  induction steps generalizing session with
  | nil => rfl
  | cons step steps ih => rw [transcript, List.length_cons, ih, List.length_cons]

/-! ### The texts of a session -/

theorem lookup_forget_self (session : Session) (address : Address) :
    (session.forget address).texts.lookup address = none := by
  refine List.lookup_eq_none_iff.2 fun entry hentry => ?_
  have hne := (List.mem_filter.1 hentry).2
  rwa [bne_comm]

theorem lookup_forget_of_ne (session : Session) {address other : Address} (h : address ≠ other) :
    (session.forget other).texts.lookup address = session.texts.lookup address := by
  rw [forget]
  induction session.texts with
  | nil => rfl
  | cons entry texts ih =>
      rw [List.filter_cons, List.lookup_cons]
      split
      · rw [List.lookup_cons, ih]
      · next hsame =>
        -- The entry goes, so it is not one of `address`.
        rw [bne_iff_ne, ne_eq, Decidable.not_not] at hsame
        rw [ih, hsame, beq_eq_false_iff_ne.2 h]

theorem lookup_remember (session : Session) (address other : Address) (text : Text) :
    (session.remember other text).texts.lookup address
      = if address = other then some text else session.texts.lookup address := by
  rw [remember, List.lookup_cons]
  split
  · next heq => rw [if_pos (beq_iff_eq.1 heq)]
  · next hne =>
    have hne := beq_eq_false_iff_ne.1 hne
    rw [if_neg hne, lookup_forget_of_ne session hne]

/-- The text in use of a document: the one that was carried last, or what is in
    the file. -/
def inUse? (disk : Disk) (messages : List Message) (address : Address) : Option Text :=
  (carried? address messages).or
    (address.filePath?.bind fun path => (disk.read (disk.locate path)).toOption)

/-- The notice of the issues of a text; none if the text is not known. -/
def shown (config : Config) (address : Address) (version : Option Int) (text? : Option Text) :
    List Notice :=
  text?.toList.map fun text =>
    .diagnostics address ((analyze config text).map (diagnostic (.parse text))) version

/-- What the editor gets for a message about a document, from the texts that are
    in use once the message has come. -/
def answer (config : Config) (inUse : Address → Option Text) : Message → Reply
  | .opened address _ version | .changed address _ version =>
    { notices := shown config address (some version) (inUse address) }
  | .saved address _ => { notices := shown config address none (inUse address) }
  | .closed address => { notices := [.diagnostics address [] none] }
  | .codeActions address asked =>
    { result := some (.actions ((inUse address).map fun text =>
        (analyze config text).filterMap (action? (.parse text) address asked))) }
  | _ => {}

/-- The notices for a message are about its document. -/
theorem document?_of_mem_answer {config : Config} {inUse : Address → Option Text}
    {message : Message} {notice : Notice} (h : notice ∈ (answer config inUse message).notices) :
    notice.document? = message.document? := by
  have hshown {address : Address} {version : Option Int}
      (h : notice ∈ shown config address version (inUse address)) :
      notice.document? = some address := by
    obtain ⟨text, -, rfl⟩ := List.mem_map.1 h
    rfl
  cases message with
  | opened address text version => exact hshown h
  | changed address texts version => exact hshown h
  | saved address text => exact hshown h
  | closed address =>
      rw [List.mem_singleton.1 h]
      rfl
  | codeActions | start | started | shutdown => exact absurd h List.not_mem_nil

/-- An answer depends on the text of the document of the message alone. -/
theorem answer_congr {config : Config} {a b : Address → Option Text} {message : Message}
    (h : ∀ address, message.document? = some address → a address = b address) :
    answer config a message = answer config b message := by
  cases message with
  | opened address | changed address | saved address | codeActions address =>
      simp only [answer, h address rfl]
  | closed | start | started | shutdown => rfl

/-- The session goes on with a configuration, and has of every document the text
    that the messages carried last. -/
structure Tracks (session : Session) (config : Config) (messages : List Message) : Prop where
  config_eq : session.config = config
  isOpen : session.isOver = false
  lookup : ∀ address, session.texts.lookup address = carried? address messages

namespace Tracks

variable {session other : Session} {config : Config} {messages : List Message} {step : Step}
  {steps : List Step}

/-- The text of a document is the one in use. -/
theorem textOf? (h : session.Tracks config messages) (disk : Disk) (address : Address) :
    Session.textOf? { session with disk := disk } address = inUse? disk messages address := by
  rw [Session.textOf?, inUse?, ← h.lookup]
  cases session.texts.lookup address with
  | none => rfl
  | some text => rfl

/-- What is published of a document is the issues of its text in use. -/
theorem publish (h : session.Tracks config messages) (address : Address) (version : Option Int) :
    session.publish address version
      = shown config address version (inUse? session.disk messages address) := by
  rw [Session.publish, show session.textOf? address = _ from h.textOf? session.disk address,
    h.config_eq]
  cases inUse? session.disk messages address with
  | none => rfl
  | some text => rfl

/-- What is offered for a document is the fixes of its text in use. -/
theorem actions (h : session.Tracks config messages) (address : Address) (asked : EditorRange) :
    session.actions address asked = (inUse? session.disk messages address).map fun text =>
      (analyze config text).filterMap (action? (.parse text) address asked) := by
  rw [Session.actions, show session.textOf? address = _ from h.textOf? session.disk address,
    h.config_eq]
  rfl

/-- A text is kept when a message carries it. -/
theorem remember (h : session.Tracks config messages) (message : Message) {address : Address}
    {text : Text} (hdocument : message.document? = some address)
    (htext : message.text? = some text) :
    (session.remember address text).Tracks config (messages ++ [message]) where
  config_eq := h.config_eq
  isOpen := h.isOpen
  lookup other := by
    rw [lookup_remember, carried?_concat, Message.settles, hdocument, htext, h.lookup]
    simp only [Option.some.injEq, Option.isSome_some, Bool.true_or, Bool.and_true,
      decide_eq_true_eq, eq_comm (b := address)]

/-- No text changes when a message neither carries one nor closes its
    document. -/
theorem keep (h : session.Tracks config messages) (message : Message)
    (htext : message.text? = none) (hopens : message.opensOrCloses = false) :
    session.Tracks config (messages ++ [message]) where
  config_eq := h.config_eq
  isOpen := h.isOpen
  lookup other := by
    rw [carried?_concat, Message.settles, htext, hopens, h.lookup]
    simp only [Option.isSome_none, Bool.or_self, Bool.and_false, Bool.false_eq_true, if_false]

/-- No text is left of a document that is closed. -/
theorem forget (h : session.Tracks config messages) (address : Address) :
    (session.forget address).Tracks config (messages ++ [.closed address]) where
  config_eq := h.config_eq
  isOpen := h.isOpen
  lookup other := by
    rw [carried?_concat]
    by_cases hother : other = address
    · subst hother
      rw [lookup_forget_self, if_pos (by simp only [Message.settles, Message.document?,
        Message.opensOrCloses, decide_true, Bool.or_true, Bool.and_self])]
      rfl
    · rw [lookup_forget_of_ne session hother, h.lookup, if_neg]
      simp only [Message.settles, Message.document?, Option.some.injEq, Ne.symm hother,
        decide_false, Bool.false_and, Bool.false_eq_true, not_false_eq_true]

/-- The disk may change. -/
theorem onDisk (h : session.Tracks config messages) (disk : Disk) :
    Tracks { session with disk := disk } config messages :=
  ⟨h.config_eq, h.isOpen, h.lookup⟩

/-- A message about a document is answered from the texts that are in use once
    it has come. -/
theorem take (h : session.Tracks config messages) (hstep : step.message.document?.isSome) :
    (session.take step).1.Tracks config (messages ++ [step.message])
      ∧ (session.take step).2
        = answer config (inUse? step.disk (messages ++ [step.message])) step.message := by
  obtain ⟨disk, message⟩ := step
  have hnow := h.onDisk disk
  -- What a message carries is stored before the texts are read again, so the
  -- answer is from the texts after it.
  rw [Session.take, handle.eq_def, if_neg (by rw [hnow.isOpen]; exact Bool.false_ne_true)]
  cases message with
  | opened address text version =>
      have hnext := hnow.remember (.opened address text version) rfl rfl
      exact ⟨hnext, congrArg _ (hnext.publish address version)⟩
  | changed address texts version =>
      simp only
      split
      · next text hlast =>
        have hnext := hnow.remember (.changed address texts version) rfl hlast
        exact ⟨hnext, congrArg _ (hnext.publish address version)⟩
      · next hlast =>
        have hnext := hnow.keep (.changed address texts version) hlast rfl
        exact ⟨hnext, congrArg _ (hnext.publish address version)⟩
  | saved address text? =>
      cases text? with
      | some text =>
          have hnext := hnow.remember (.saved address (some text)) rfl rfl
          exact ⟨hnext, congrArg _ (hnext.publish address none)⟩
      | none =>
          have hnext := hnow.keep (.saved address none) rfl rfl
          exact ⟨hnext, congrArg _ (hnext.publish address none)⟩
  | closed address => exact ⟨hnow.forget address, rfl⟩
  | codeActions address asked =>
      have hnext := hnow.keep (.codeActions address asked) rfl rfl
      exact ⟨hnext, congrArg (fun offered => ({ result := some (.actions offered) } : Reply))
        (hnext.actions address asked)⟩
  | start | started | shutdown => exact absurd hstep Bool.false_ne_true

/-- A session tracks the texts along its messages. -/
theorem after (h : session.Tracks config messages)
    (hsteps : ∀ step ∈ steps, step.message.document?.isSome) :
    (session.after steps).Tracks config (messages ++ steps.map Step.message) := by
  induction steps generalizing session messages with
  | nil => rwa [List.map_nil, List.append_nil]
  | cons step steps ih =>
      rw [List.forall_mem_cons] at hsteps
      have hnext := ih (h.take hsteps.1).1 hsteps.2
      rwa [List.append_assoc] at hnext

/-- Each message of a session is answered from the texts that the messages up to
    it have left in use. -/
theorem transcript_getElem (h : session.Tracks config messages) {earlier later : List Step}
    (hsteps : ∀ taken ∈ earlier ++ step :: later, taken.message.document?.isSome) :
    (session.transcript (earlier ++ step :: later))[earlier.length]? = some (step.message,
      answer config (inUse? step.disk (messages ++ (earlier ++ [step]).map Step.message))
        step.message) := by
  rw [List.forall_mem_append, List.forall_mem_cons] at hsteps
  have hanswer := ((h.after hsteps.1).take hsteps.2.1).2
  rw [transcript_append,
    List.getElem?_append_right (Nat.le_of_eq (length_transcript session earlier)),
    length_transcript, Nat.sub_self, transcript, List.getElem?_cons_zero, hanswer,
    List.map_append, List.append_assoc]
  rfl

/-- Two sessions that have the same text of a document say the same about it,
    though one of them leaves out the messages about others. -/
theorem transcript_filter {address : Address} {others : List Message}
    (h : session.Tracks config messages) (hother : other.Tracks config others)
    (hsame : carried? address messages = carried? address others)
    (hsteps : ∀ step ∈ steps, step.message.document?.isSome) :
    (session.transcript steps).filter (·.1.document? = some address)
      = other.transcript (steps.filter (·.message.document? = some address)) := by
  -- Along the steps both sessions have the same text of the document.
  induction steps generalizing session other messages others with
  | nil => rfl
  | cons step steps ih =>
      rw [List.forall_mem_cons] at hsteps
      obtain ⟨hnext, hreply⟩ := h.take hsteps.1
      rw [transcript, List.filter_cons, List.filter_cons]
      by_cases habout : step.message.document? = some address
      · obtain ⟨hotherNext, hotherReply⟩ := hother.take hsteps.1
        have hsame' : carried? address (messages ++ [step.message])
            = carried? address (others ++ [step.message]) := by
          rw [carried?_concat, carried?_concat, hsame]
        have hreplies : (session.take step).2 = (other.take step).2 := by
          rw [hreply, hotherReply]
          refine answer_congr fun about hdocument => ?_
          rw [habout, Option.some.injEq] at hdocument
          rw [inUse?, inUse?, ← hdocument, hsame']
        rw [if_pos (decide_eq_true habout), if_pos (decide_eq_true habout), transcript,
          hreplies, ih hnext hotherNext hsame' hsteps.2]
      · -- The other session does not see this message.
        have hsame' : carried? address (messages ++ [step.message]) = carried? address others := by
          rw [carried?_concat, Message.settles, decide_eq_false habout, Bool.false_and, hsame]
          rfl
        rw [if_neg (by rwa [decide_eq_true_eq]), if_neg (by rwa [decide_eq_true_eq]),
          ih hnext hother hsame' hsteps.2]

end Tracks

/-- A session that has begun has no texts. -/
theorem begun_tracks (disk : Disk) (root : Option Address) :
    (begun disk root).Tracks (begun disk root).config [] := by
  have henter : ((start disk).enter root).isOver = false
      ∧ ((start disk).enter root).texts = [] := by
    rw [enter]
    split <;> exact ⟨rfl, rfl⟩
  have hbegun : begun disk root = (start disk).enter root := by
    rw [begun, show ((start disk).handle (.start root)).1 = (start disk).enter root from rfl,
      handle, if_neg (by rw [henter.1]; exact Bool.false_ne_true)]
  refine ⟨rfl, hbegun ▸ henter.1, fun address => ?_⟩
  rw [hbegun, henter.2]
  rfl

/-- A session uses of every document the last text that was carried of it, or
    what is in the file; each message is answered from the text in use of its
    document, and the notices for it are about that document; and what is said
    about a document is what would be said had the messages about the others not
    come. -/
theorem begun_tracks_documents (disk : Disk) (root : Option Address) {steps : List Step}
    (hsteps : ∀ step ∈ steps, step.message.document?.isSome) :
    (∀ now address, textOf? { (begun disk root).after steps with disk := now } address
        = inUse? now (steps.map Step.message) address)
      ∧ (∀ earlier step later, steps = earlier ++ step :: later →
        ((begun disk root).transcript steps)[earlier.length]? = some (step.message,
          answer (begun disk root).config
            (inUse? step.disk ((earlier ++ [step]).map Step.message)) step.message))
      ∧ (∀ exchange ∈ (begun disk root).transcript steps, ∀ notice ∈ exchange.2.notices,
        notice.document? = exchange.1.document?)
      ∧ ∀ address, ((begun disk root).transcript steps).filter (·.1.document? = some address)
        = (begun disk root).transcript (steps.filter (·.message.document? = some address)) := by
  have hbegun := begun_tracks disk root
  have htranscript {earlier : List Step} {step : Step} {later : List Step}
      (hsplit : steps = earlier ++ step :: later) :
      ((begun disk root).transcript steps)[earlier.length]? = some (step.message,
        answer (begun disk root).config
          (inUse? step.disk ((earlier ++ [step]).map Step.message)) step.message) := by
    subst hsplit
    exact hbegun.transcript_getElem hsteps
  refine ⟨fun now => (hbegun.after hsteps).textOf? now, fun _ _ _ => htranscript,
    fun exchange hexchange => ?_, fun _ => hbegun.transcript_filter hbegun rfl hsteps⟩
  -- A notice belongs to an exchange, which is the answer to one of the messages.
  obtain ⟨i, hi, rfl⟩ := List.getElem_of_mem hexchange
  rw [length_transcript] at hi
  have hsplit : steps = steps.take i ++ steps[i] :: steps.drop (i + 1) := by
    rw [List.getElem_cons_drop, List.take_append_drop]
  have hanswer := htranscript hsplit
  rw [List.length_take_of_le (Nat.le_of_lt hi), List.getElem?_eq_some_iff] at hanswer
  obtain ⟨_, hanswer⟩ := hanswer
  rw [hanswer]
  exact fun _ => document?_of_mem_answer

/-- Messages about a document with a file and about another one, in turns. -/
def mixedSteps : List Step :=
  [.opened "file:///a.cs" "class A \x7b private int _x; A() \x7b _x = 1; \x7d \x7d".toList 1,
    .changed "untitled:b" ["class".toList, "class B \x7b \x7d".toList] 7,
    .changed "file:///a.cs" [] 2, .closed "file:///a.cs", .saved "untitled:b" none].map
    fun message => ⟨{}, message⟩

/-- The document that is closed is read from its file, and the other one keeps
    the last text of its change. -/
theorem begun_tracks_documents_mixed :
    (∀ step ∈ mixedSteps, step.message.document?.isSome)
      ∧ ((begun {} none).after mixedSteps).textOf? "untitled:b" = some "class B \x7b \x7d".toList
      ∧ (∀ now, textOf? { (begun {} none).after mixedSteps with disk := now } "file:///a.cs"
        = (Address.filePath? "file:///a.cs").bind fun path =>
          (now.read (now.locate path)).toOption)
      ∧ ((begun {} none).transcript mixedSteps).filter (·.1.document? = some "file:///a.cs")
        = (begun {} none).transcript
          (mixedSteps.filter (·.message.document? = some "file:///a.cs")) := by
  have hsteps : ∀ step ∈ mixedSteps, step.message.document?.isSome := by
    decide
  obtain ⟨hinUse, -, -, hfilter⟩ := begun_tracks_documents {} none hsteps
  have hkept : carried? "untitled:b" (mixedSteps.map Step.message)
      = some "class B \x7b \x7d".toList := by
    decide
  have hclosed : carried? "file:///a.cs" (mixedSteps.map Step.message) = none := by
    decide
  refine ⟨hsteps, ?_, fun now => ?_, hfilter _⟩
  · rw [show textOf? _ _ = _ from hinUse _ "untitled:b", inUse?, hkept, Option.some_or]
  · rw [hinUse, inUse?, hclosed, Option.none_or]

end Session

end SharpLint
