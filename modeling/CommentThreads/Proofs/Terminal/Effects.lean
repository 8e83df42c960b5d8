/-
CommentThreads.Proofs.Terminal.Effects — what one line may change, at the server and in
what is remembered.

Whoever answers, and however, a line sends at most one request that is no read, and
only if it `Orders` that change: it is a commit with a message, or answers the last
prompt of a sequence, or removes a comment whose password is remembered. What is
remembered changes only when a name is configured, or when the change was granted
(`contained_feed`).
-/
import CommentThreads.Proofs.Client.Endings
import CommentThreads.Proofs.Terminal.Prompts

namespace CommentThreads.Terminal

open CommentThreads.Client CommentThreads.Http CommentThreads.Text

variable {σ α : Type} {reply : Query → σ → Reply × σ} {setup : Setup}

/-! ## What is sent -/

/-- Requests with their replies, in the order in which they were sent. -/
abbrev Record := List (Query × Reply)

/-- One who answers, with a record of what was asked and answered. -/
def watching (reply : Query → σ → Reply × σ) (q : Query) (w : Record × σ) :
    Reply × (Record × σ) :=
  ((reply q w.2).1, (w.1 ++ [(q, (reply q w.2).1)], (reply q w.2).2))

/-- The scene at the start of a record. -/
def Scene.watched (s : Scene σ) : Scene (Record × σ) := ⟨s.terminal, ([], s.server)⟩

/-- To be watched changes nothing. -/
theorem run_watching (reply : Query → σ → Reply × σ) (d : Dialogue α) (w : Record × σ) :
    (d.run (watching reply) w).1 = (d.run reply w.2).1 ∧
      (d.run (watching reply) w).2.2 = (d.run reply w.2).2 := by
  induction d generalizing w with
  | done a => exact ⟨rfl, rfl⟩
  | ask query next ih => exact ih _ _

theorem terminal_watched (a : Session α) (s : Scene σ) :
    (a.outcome (watching reply) s.watched).2.terminal = (a.outcome reply s).2.terminal :=
  congrArg Prod.snd (run_watching reply (a.run.run s.terminal) s.watched.server).1

/-- What a step sends, with what comes back. -/
def exchanges (reply : Query → σ → Reply × σ) (a : Session α) (s : Scene σ) : Record :=
  (a.outcome (watching reply) s.watched).2.server.1

/-- Nothing but reads. -/
def OnlyReads (record : Record) : Prop := ∀ x ∈ record, x.1.method = "GET"

/-- The requests that are no reads, with their replies. -/
def changes (record : Record) : Record := record.filter fun x => x.1.method ≠ "GET"

theorem OnlyReads.append {first rest : Record} (hfirst : OnlyReads first) (hrest : OnlyReads rest) :
    OnlyReads (first ++ rest) := by
  intro x hx
  rcases List.mem_append.mp hx with hx | hx
  · exact hfirst x hx
  · exact hrest x hx

theorem OnlyReads.changes_eq {record : Record} (h : OnlyReads record) : changes record = [] := by
  rw [changes, List.filter_eq_nil_iff]
  intro x hx
  rw [h x hx]
  decide

/-! ## Steps that only read -/

/-- What is remembered is of a kind, and only reads were sent since a record. -/
def Since (Q : StateFile → Prop) (record : Record) (file : StateFile) (w : Record × σ) : Prop :=
  Q file ∧ ∃ more, w.1 = record ++ more ∧ OnlyReads more

theorem since_now {Q : StateFile → Prop} {file : StateFile} (h : Q file) (w : Record × σ) :
    Since Q w.1 file w :=
  ⟨h, [], (List.append_nil _).symm, List.forall_mem_nil _⟩

/-- An exchange that sends one read, or nothing. -/
def Fetches (e : Client.Exchange α) : Prop :=
  (∃ target read, e = (send ⟨"GET", target, none⟩ >>= receive read)) ∨ e = throw .badAddress

theorem fetches_threads (post : String) : Fetches (Client.threads post) := by
  cases htarget : Target.ofField? "/comments" "post_id" post with
  | some target => exact .inl ⟨target, Listing.reader, threads_of_target htarget⟩
  | none =>
    right
    rw [Client.threads, htarget]
    rfl

theorem fetches_comment (hash : String) : Fetches (Client.comment hash) := by
  cases htarget : Target.ofReference? ("/comments/".toList ++ hash.toList) with
  | some target => exact .inl ⟨target, Detail.reader, comment_of_target htarget⟩
  | none =>
    right
    rw [Client.comment, htarget]
    rfl

section Reading

variable {Q : StateFile → Prop} {record : Record} {file : StateFile}

theorem Fetches.since {e : Client.Exchange α} (he : Fetches e) (reply : Query → σ → Reply × σ)
    {w : Record × σ} (h : Since Q record file w) :
    Since Q record file (e.outcome (watching reply) w).2 := by
  rcases he with ⟨target, read, rfl⟩ | rfl
  · obtain ⟨hfile, more, hmore, hreads⟩ := h
    rw [server_of_asking (watching reply) rfl]
    refine ⟨hfile, more ++ [(⟨"GET", target, none⟩, (reply ⟨"GET", target, none⟩ w.2).1)], ?_,
      hreads.append (List.forall_mem_singleton.mpr rfl)⟩
    rw [watching, hmore, List.append_assoc]
  · exact h

theorem endsAt_fetch {e : Client.Exchange α} (he : Fetches e) {good : α → Prop}
    (hgood : ∀ a, good a) {w : Record × σ} (h : Since Q record file w) :
    EndsAt (watching reply) (Since Q record file) (fun _ => True) e
      (fun a after => Since Q record file after ∧ good a) w := by
  have hafter := he.since reply h
  refine endsAt_of_any (fun a after hended => ?_) (fun fault after hended => ?_) fun _ => trivial
  · rw [hended] at hafter
    exact ⟨hafter, hgood a⟩
  · rw [hended] at hafter
    exact hafter

theorem shown_anyway (setup : Setup) (c : Summary) : Shown (fun _ => True) setup c where
  line _ := trivial
  date _ _ := trivial

theorem supportsReading_watching (reply : Query → σ → Reply × σ) (setup : Setup)
    (Q : StateFile → Prop) (record : Record) :
    SupportsReading (watching reply) setup (Since Q record) fun _ => True where
  threads _ _ h := endsAt_fetch (fetches_threads setup.post)
    (fun _ t _ => ⟨shown_anyway setup t.root, fun c _ => shown_anyway setup c⟩) h
  comment hash _ _ _ h := endsAt_fetch (fetches_comment hash)
    (fun c => ⟨shown_anyway setup c.summary, fun _ _ _ _ => trivial⟩) h

/-- A step after which what is remembered is as before, and that only reads. -/
abbrev Harmless (reply : Query → σ → Reply × σ) (Q : StateFile → Prop) (record : Record)
    (a : Session Unit) : Prop :=
  Upholds (watching reply) (Standing (fun _ => True) (Since Q record)) (fun _ => True) a

theorem harmless_enter (prompt : Prompt) : Harmless reply Q record (enter prompt) :=
  fun _ hs => upheldAt_enter prompt trivial hs.kept

theorem harmless_log (oneline : Bool) : Harmless reply Q record (log setup oneline) :=
  upholds_log (supportsReading_watching reply setup Q record) oneline

theorem harmless_rebase (setup : Setup) (hash : String) :
    Harmless reply Q record (rebase hash) := by
  refine upholds_lookup (supportsReading_watching reply setup Q record) (.inr trivial) ?_
  intro c _ _ s hs
  refine upheldAt_bind_ok (outcome_remembered? hash s) ?_
  split
  · exact harmless_enter _ s hs
  · exact harmless_enter _ s hs
  · exact upholds_throw trivial s hs

/-- To show a configured value writes nothing. -/
theorem harmless_config (key : String) : Harmless reply Q record (config key none) := by
  intro s hs
  refine upheldAt_bind_ok (outcome_configured? key s) ?_
  split
  · exact upholds_showing _ _ s hs
  · exact upholds_throw trivial s hs
  · exact upholds_showing _ _ s hs

end Reading

/-! ## Changes -/

/-- What a terminal asks a server to change. -/
inductive Change
  | create (author : Json) (password : Option RawText) (message : String) (parent : Option String)
  | update (hash password : Option RawText) (message : String)
  | delete (hash : Option RawText) (password : Json)

/-- The request for a change. -/
def Change.query (post : String) : Change → Query
  | .create author password message parent =>
    ⟨"POST", commentsTarget,
      some (NewComment.body post author (.ofText? password) message (parent.map .plain))⟩
  | .update hash password message =>
    ⟨"PUT", commentsTarget, some (Edit.body (.ofText? hash) (.ofText? password) message)⟩
  | .delete hash password =>
    ⟨"DELETE", commentsTarget, some (Removal.body (.ofText? hash) password)⟩

/-- A reply that tells that a change was made. -/
def Change.Granted (r : Reply) : Change → Prop
  | .create _ _ _ _ => ∃ receipt, heard Receipt.reader r = .ok receipt
  | .update _ _ _ | .delete _ _ => ∃ notice, heard Notice.reader r = .ok notice

/-- What is remembered after a change was granted: the password of a new comment, if
it has one, and none for a comment that was removed. -/
inductive Noted (r : Reply) (before : StateFile.Section) : Change → StateFile.Section → Prop
  | added {author : Json} {password : Option RawText} {message : String} {parent : Option String}
      {receipt : Receipt} {given : RawText} (granted : heard Receipt.reader r = .ok receipt)
      (said : password.bind RawText.nonEmpty? = some given) :
      Noted r before (.create author password message parent)
        (Entries.put (.text receipt.hash) (.text given) before)
  | removed {hash : Option RawText} {password : Json} {notice : Notice}
      (granted : heard Notice.reader r = .ok notice) :
      Noted r before (.delete hash password) (Entries.erase (.ofText? hash) before)

theorem Noted.granted {r : Reply} {before after : StateFile.Section} {c : Change}
    (h : Noted r before c after) : c.Granted r := by
  cases h with
  | added granted said => exact ⟨_, granted⟩
  | removed granted => exact ⟨_, granted⟩

theorem Change.method_ne (post : String) (c : Change) : (c.query post).method ≠ "GET" := by
  cases c with
  | create author password message parent => exact show "POST" ≠ "GET" by decide
  | update hash password message => exact show "PUT" ≠ "GET" by decide
  | delete hash password => exact show "DELETE" ≠ "GET" by decide

/-- What is remembered after a reply to a change: nothing is configured by it, and
nothing is different unless it was granted. -/
structure AfterReply (c : Change) (r : Reply) (before after : StateFile) : Prop where
  config : after.config = before.config
  reflog : after.reflog = before.reflog ∨ Noted r before.reflog c after.reflog
  refused : ¬c.Granted r → after = before

theorem AfterReply.refl (c : Change) (r : Reply) (file : StateFile) : AfterReply c r file file :=
  ⟨rfl, .inl rfl, fun _ => rfl⟩

theorem afterReply_of_written {c : Change} {r : Reply} {update : StateFile.Update Unit}
    {file : StateFile} {reflog : StateFile.Section}
    (h : StateFile.Written update file file.config reflog) (hnoted : Noted r file.reflog c reflog) :
    AfterReply c r file (update.run.run file).2 where
  config := h.config
  reflog := by
    rw [h.reflog]
    exact .inr hnoted
  refused hrefused := absurd hnoted.granted hrefused

/-- A change was sent among reads, and what is remembered follows the reply. -/
structure Sends (post : String) (c : Change) (r : Reply) (file : StateFile)
    (s : Scene (Record × σ)) : Prop where
  sent : ∃ before more, s.server.1 = before ++ (c.query post, r) :: more ∧
    OnlyReads before ∧ OnlyReads more
  kept : AfterReply c r file s.terminal.file

section Sending

variable {c : Change} {s : Scene (Record × σ)}

/-- What stands once a change was sent and answered. -/
abbrev Answered (post : String) (c : Change) (r : Reply) (s s' : Scene (Record × σ)) : Prop :=
  Standing (fun _ => True)
    (Since (AfterReply c r s.terminal.file) (s.server.1 ++ [(c.query post, r)])) s'

/-- A step after which a change was sent and answered, or which cannot write it and ends
where it began. -/
def Asks (reply : Query → σ → Reply × σ) (post : String) (c : Change) (a : Session Unit)
    (s : Scene (Record × σ)) : Prop :=
  (∃ r, UpheldAt (watching reply) (Answered post c r s) (fun _ => True) a s) ∨
    (a.outcome (watching reply) s).2 = s

/-- An exchange that sends a change. After a refusal there is but a line that tells so. -/
theorem asks_exchange {post : String} {read : FieldReader α} {next : α → Session Unit}
    (hnext : ∀ r a server, heard read r = .ok a →
      UpheldAt (watching reply) (Answered post c r s) (fun _ => True) (next a)
        (s.withServer (s.server.1 ++ [(c.query post, r)], server))) :
    Asks reply post c (exchange (send (c.query post) >>= receive read) next sayRefusal) s := by
  cases hwritable : (c.query post).isWritable with
  | false =>
    right
    have hunsent : Exchange.outcome (watching reply) (send (c.query post) >>= receive read)
        s.server = (.error .unwritable, s.server) := by
      rw [Client.outcome_bind, outcome_send_of_not _ hwritable]
    rw [outcome_exchange, hunsent]
    rfl
  | true =>
    left
    let r := (reply (c.query post) s.server.2).1
    have hasked :
        Exchange.outcome (watching reply) (send (c.query post) >>= receive read) s.server =
        (heard read r, (watching reply (c.query post) s.server).2) :=
      Prod.ext (result_of_heard _ hwritable _ _) (server_of_asking _ hwritable _ _)
    have hends : EndsAt (watching reply) (fun after => after.1 = s.server.1 ++ [(c.query post, r)])
        (fun _ => True) (send (c.query post) >>= receive read)
        (fun a after => heard read r = .ok a ∧ after.1 = s.server.1 ++ [(c.query post, r)])
        s.server := by
      refine endsAt_of_any (fun a after hended => ?_) (fun fault after hended => ?_)
        (fun _ => trivial)
      · rw [hasked] at hended
        obtain ⟨hheard, rfl⟩ := Prod.mk.inj hended
        exact ⟨hheard, rfl⟩
      · rw [hasked] at hended
        obtain ⟨-, rfl⟩ := Prod.mk.inj hended
        rfl
    refine ⟨r, upheldAt_exchange hends (fun a after hgood => ?_) upholds_sayRefusal
      fun after hkeep => ?_⟩
    · obtain ⟨record, server⟩ := after
      obtain ⟨hheard, rfl⟩ := hgood
      exact hnext r a server hheard
    · have hsince := since_now (AfterReply.refl c r s.terminal.file) after
      rw [hkeep] at hsince
      exact ⟨trivial, hsince⟩

theorem Asks.sends {post : String} {a : Session Unit} (h : Asks reply post c a s)
    (hreads : OnlyReads s.server.1) :
    (∃ r, Sends post c r s.terminal.file (a.outcome (watching reply) s).2) ∨
      (a.outcome (watching reply) s).2 = s := by
  refine h.imp_left ?_
  rintro ⟨r, ⟨-, hkept, more, hmore, hmore_reads⟩, -⟩
  refine ⟨r, ⟨s.server.1, more, ?_, hreads, hmore_reads⟩, hkept⟩
  rw [hmore, List.append_assoc]
  rfl

theorem asks_update (hash password : Option RawText) (message : String) :
    Asks reply setup.post (.update hash password message) (update setup hash password message)
      s := by
  refine asks_exchange fun r notice server _ => ?_
  exact upholds_bind (upholds_showing _ _) (fun _ => harmless_log false) _
    ⟨trivial, since_now (.refl _ r _) _⟩

theorem asks_create (author : Json) (password : Option RawText) (message : String)
    (parent : Option String) :
    Asks reply setup.post (.create author password message parent)
      (create setup author password message parent) s := by
  refine asks_exchange fun r receipt server hheard => ?_
  refine upheldAt_bind_ok (outcome_print _ _ _) (upheldAt_bind_ok (outcome_print _ _ _)
    (upheldAt_bind_ok (outcome_print _ _ _) ?_))
  cases hgiven : password.bind RawText.nonEmpty? with
  | some given =>
    have hwritten := StateFile.written_remember receipt.hash (.text given) s.terminal.file
    exact upheldAt_remembering trivial
      ⟨since_now (afterReply_of_written hwritten (.added hheard hgiven)) _, fun _ _ => trivial⟩
  | none => exact upholds_showing _ _ _ ⟨trivial, since_now (.refl _ r _) _⟩

/-- Where the state file cannot be written, the threads are not shown either. -/
theorem asks_delete (hash : Option RawText) (password : Json) (showLog : Bool) :
    Asks reply setup.post (.delete hash password) (delete setup hash password showLog) s := by
  refine asks_exchange fun r notice server hheard => ?_
  have hwritten := StateFile.written_forgetKey (.ofText? hash) s.terminal.file
  refine upheldAt_bind_ok (outcome_print _ _ _) (upheldAt_bind ?_ fun _ => ?_)
  · exact upheldAt_remembering trivial
      ⟨since_now (afterReply_of_written hwritten (.removed hheard)) _, fun _ _ => trivial⟩
  · split
    · exact harmless_log false
    · exact upholds_pure ()

end Sending

/-! ## What a line orders -/

/-- The comment that is named to be removed: by its hash, or by the first characters of
the hash of a comment that is listed. -/
inductive Resolves (reply : Query → σ → Reply × σ) (setup : Setup) (s : Scene σ) (given : String) :
    RawText → Prop
  | whole (length : given.length ≠ shortLength) : Resolves reply setup s given given
  | short {threads : List Thread} {server : σ} {c : Summary} (length : given.length = shortLength)
      (listed : (Client.threads setup.post).outcome reply s.server = (.ok threads, server))
      (first : (Thread.comments threads).find? (·.hash.startsWith given) = some c) :
      Resolves reply setup s given c.hash

/-- The changes that a line asks for. -/
inductive Orders (reply : Query → σ → Reply × σ) (setup : Setup) (line : String) (s : Scene σ) :
    Change → Prop
  | commit {draft : Draft} {message : String} (idle : s.terminal.prompt.step = .idle)
      (command : Command.ofLine? line = some (.commit draft)) (said : draft.message = some message)
      (written : isBlankText message = false) :
      Orders reply setup line s
        (.create (chosenAuthor setup (typedName? draft.author) s.terminal.file)
          (draft.password.map .plain) message draft.parent)
  | message (step : s.terminal.prompt.step = .message) (written : isBlankText line = false) :
      Orders reply setup line s (.create (s.terminal.prompt.name.getD .null)
        s.terminal.prompt.secret (strip line) s.terminal.prompt.parent)
  | edit (step : s.terminal.prompt.step = .editMessage) (written : isBlankText line = false) :
      Orders reply setup line s
        (.update s.terminal.prompt.hash s.terminal.prompt.secret (strip line))
  | removal (step : s.terminal.prompt.step = .deletePassword)
      (written : isBlankText line = false) :
      Orders reply setup line s (.delete s.terminal.prompt.hash (.text (strip line)))
  | reset {given : String} {hash : RawText} {password : Json}
      (idle : s.terminal.prompt.step = .idle) (command : Command.ofLine? line = some (.reset given))
      (resolves : Resolves reply setup s given hash)
      (remembered : (s.terminal.file.reflog.get? hash).filter Json.isGiven = some password) :
      Orders reply setup line s (.delete (some hash) password)

/-- What a line does: it only reads, or configures a name, or sends a change that it
orders. -/
inductive Effect (reply : Query → σ → Reply × σ) (setup : Setup) (line : String) (s : Scene σ)
    (s' : Scene (Record × σ)) : Prop
  | reads (sent : OnlyReads s'.server.1) (file : s'.terminal.file = s.terminal.file)
  | configures {key name : String} (idle : s.terminal.prompt.step = .idle)
      (command : Command.ofLine? line = some (.config key (some name))) (sent : s'.server.1 = [])
      (config : s'.terminal.file.config =
        Entries.put (.text key) (.text name) s.terminal.file.config)
      (reflog : s'.terminal.file.reflog = s.terminal.file.reflog)
  | changes {c : Change} {r : Reply} (ordered : Orders reply setup line s c)
      (sends : Sends setup.post c r s.terminal.file s')

section Line

variable {line : String} {s : Scene σ} {t : Scene (Record × σ)}

/-- A scene before anything but reads has come of a line. -/
structure Before (s : Scene σ) (t : Scene (Record × σ)) : Prop where
  file : t.terminal.file = s.terminal.file
  reads : OnlyReads t.server.1

theorem effect_of_harmless {a : Session Unit} (ht : Before s t)
    (h : Harmless reply (· = s.terminal.file) t.server.1 a) :
    Effect reply setup line s (a.outcome (watching reply) t).2 := by
  obtain ⟨⟨-, hfile, more, hmore, hreads⟩, -⟩ := h t ⟨trivial, since_now ht.file _⟩
  refine .reads ?_ hfile
  rw [hmore]
  exact ht.reads.append hreads

theorem effect_of_asks {a : Session Unit} {c : Change} (ht : Before s t)
    (h : Asks reply setup.post c a t) (hordered : Orders reply setup line s c) :
    Effect reply setup line s (a.outcome (watching reply) t).2 := by
  rcases h.sends ht.reads with ⟨r, hsends⟩ | hunsent
  · rw [ht.file] at hsends
    exact .changes hordered hsends
  · rw [hunsent]
    exact .reads ht.reads ht.file

theorem effect_commit {draft : Draft} (hidle : s.terminal.prompt.step = .idle)
    (hline : Command.ofLine? line = some (.commit draft)) (ht : Before s t) :
    Effect reply setup line s ((commit setup draft).outcome (watching reply) t).2 := by
  unfold commit
  split
  · exact effect_of_harmless ht (harmless_enter _)
  · next message hsaid =>
    split
    · exact effect_of_harmless ht (upholds_showing _ _)
    · next hwritten =>
      rw [outcome_bind_ok (outcome_chooseAuthor (typedName? draft.author) t), ht.file]
      exact effect_of_asks ht (asks_create _ _ _ _)
        (.commit hidle hline hsaid (eq_false_of_ne_true hwritten))

theorem effect_resetFull {given : String} {hash : RawText} (hidle : s.terminal.prompt.step = .idle)
    (hline : Command.ofLine? line = some (.reset given)) (ht : Before s t)
    (hresolves : Resolves reply setup s given hash) :
    Effect reply setup line s ((resetFull setup hash).outcome (watching reply) t).2 := by
  rw [resetFull, outcome_bind_ok (outcome_remembered? hash t), ht.file]
  cases hfound : (s.terminal.file.reflog.get? hash).filter Json.isGiven with
  | none => exact effect_of_harmless ht (harmless_enter _)
  | some password =>
    exact effect_of_asks ht (asks_delete (some hash) password false)
      (.reset hidle hline hresolves hfound)

/-- What is fetched first is what the one who answers would give in any case. -/
theorem effect_fetch {e : Client.Exchange α} (he : Fetches e) {next : α → Session Unit}
    (ht : Before s t)
    (hnext : ∀ a w, e.outcome reply t.server.2 = (.ok a, w.2) → Before s (t.withServer w) →
      Effect reply setup line s ((next a).outcome (watching reply) (t.withServer w)).2) :
    Effect reply setup line s ((exchange e next sayRefusal).outcome (watching reply) t).2 := by
  obtain ⟨hresult, hserver⟩ := run_watching reply e.run t.server
  obtain ⟨hfile, more, hmore, hreads⟩ := he.since reply (since_now ht.file t.server)
  have hended : (exchange e next sayRefusal).outcome (watching reply) t = _ :=
    outcome_exchange e next sayRefusal t
  have hsame : e.outcome reply t.server.2 = ((e.outcome (watching reply) t.server).1,
      (e.outcome (watching reply) t.server).2.2) := Prod.ext hresult.symm hserver.symm
  cases hasked : e.outcome (watching reply) t.server with
  | mk result w =>
    rw [hasked] at hended hsame hmore
    have hbefore : Before s (t.withServer w) := by
      refine ⟨ht.file, ?_⟩
      change OnlyReads w.1
      rw [hmore]
      exact ht.reads.append hreads
    rw [hended]
    cases result with
    | ok a => exact hnext a w hsame hbefore
    | error fault =>
      cases fault with
      | refused detail status =>
        exact effect_of_harmless hbefore (upholds_sayRefusal detail status)
      | badAddress => exact .reads hbefore.reads hbefore.file
      | unwritable => exact .reads hbefore.reads hbefore.file
      | entryNotObject => exact .reads hbefore.reads hbefore.file
      | messageNotText => exact .reads hbefore.reads hbefore.file

theorem effect_reset {given : String} (hidle : s.terminal.prompt.step = .idle)
    (hline : Command.ofLine? line = some (.reset given)) (ht : Before s t)
    (hserver : t.server.2 = s.server) :
    Effect reply setup line s ((reset setup given).outcome (watching reply) t).2 := by
  unfold reset
  split
  · next hlength => exact effect_resetFull hidle hline ht (.whole hlength)
  · next hlength =>
    refine effect_fetch (fetches_threads setup.post) ht fun threads w hlisted hw => ?_
    rw [hserver] at hlisted
    split
    · next c hfirst =>
      exact effect_resetFull hidle hline hw (.short (of_not_not hlength) hlisted hfirst)
    · exact effect_of_harmless hw (upholds_showing _ _)

theorem effect_config {key name : String} (hidle : s.terminal.prompt.step = .idle)
    (hline : Command.ofLine? line = some (.config key (some name)))
    (hfile : t.terminal.file = s.terminal.file) (hsent : t.server.1 = []) :
    Effect reply setup line s ((config key (some name)).outcome (watching reply) t).2 := by
  let set (file : StateFile) (w : Record × σ) : Prop :=
    (file.config = Entries.put (.text key) (.text name) s.terminal.file.config ∧
      file.reflog = s.terminal.file.reflog) ∧ w.1 = []
  have hwritten := StateFile.written_setConfig key (.text name) t.terminal.file
  have hset : UpheldAt (watching reply) (Standing (fun _ => True) set) (fun _ => True)
      (config key (some name)) t := by
    refine upheldAt_bind (upheldAt_remembering trivial ⟨⟨?_, hsent⟩, fun _ _ => trivial⟩) ?_
    · rw [← hfile]
      exact ⟨hwritten.config, hwritten.reflog⟩
    · exact fun _ => upholds_showing _ _
  obtain ⟨⟨-, ⟨hconfig, hreflog⟩, hnone⟩, -⟩ := hset
  exact .configures hidle hline hnone hconfig hreflog

theorem effect_carryOut {command : Command} (hidle : s.terminal.prompt.step = .idle)
    (hline : Command.ofLine? line = some command) {t : Scene (Record × σ)}
    (hfile : t.terminal.file = s.terminal.file) (hserver : t.server = ([], s.server)) :
    Effect reply setup line s ((carryOut setup command).outcome (watching reply) t).2 := by
  have hsent : t.server.1 = [] := congrArg Prod.fst hserver
  have ht : Before s t := by
    refine ⟨hfile, ?_⟩
    rw [hsent]
    exact List.forall_mem_nil _
  have hreading := supportsReading_watching reply setup (· = s.terminal.file) t.server.1
  cases command with
  | help => exact effect_of_harmless ht (upholds_showing _ _)
  | log oneline => exact effect_of_harmless ht (harmless_log oneline)
  | commit draft => exact effect_commit hidle hline ht
  | inspect hash => exact effect_of_harmless ht (upholds_inspect hreading (.inr trivial))
  | rebase hash => exact effect_of_harmless ht (harmless_rebase setup hash)
  | reset given => exact effect_reset hidle hline ht (congrArg Prod.snd hserver)
  | config key value =>
    cases value with
    | none => exact effect_of_harmless ht (harmless_config key)
    | some name => exact effect_config hidle hline hfile hsent
  | reflog => exact effect_of_harmless ht (upholds_reflog hreading)
  | mistaken mistake => exact effect_of_harmless ht (upholds_showing _ _)

/-- An answer that is not blank is the line without the white space around it. -/
theorem effect_unlessBlank {complaint : String} {next : Session Unit} (ht : Before s t)
    (hnext : isBlankText line = false →
      Effect reply setup line s (next.outcome (watching reply) t).2) :
    Effect reply setup line s
      ((unlessBlank (strip line) complaint next).outcome (watching reply) t).2 := by
  unfold unlessBlank
  split
  · exact effect_of_harmless ht (upholds_showing _ _)
  · next hne =>
    refine hnext (eq_false_of_ne_true fun hblank => hne ?_)
    exact (strip_eq_empty_iff line).mpr hblank

theorem before_atPrompt (ht : Before s t) (prompt : Prompt) : Before s (t.atPrompt prompt) :=
  ⟨ht.file, ht.reads⟩

theorem effect_takeAnswer (ht : Before s t) :
    Effect reply setup line s
      ((takeAnswer setup (strip line) s.terminal.prompt).outcome (watching reply) t).2 := by
  rw [takeAnswer]
  split
  next => exact .reads ht.reads ht.file
  next =>
    split
    · rw [outcome_bind_ok (outcome_chooseAuthor s.terminal.prompt.name t),
        outcome_bind_ok (outcome_print _ _ t)]
      exact .reads ht.reads ht.file
    · exact effect_of_harmless ht (harmless_enter _)
  next => exact effect_unlessBlank ht fun _ => effect_of_harmless ht (harmless_enter _)
  next hstep =>
    refine effect_unlessBlank ht fun hwritten => ?_
    rw [resetPrompt, outcome_bind_ok (outcome_enter {} t)]
    exact effect_of_asks (before_atPrompt ht {}) (asks_create _ _ _ _) (.message hstep hwritten)
  next => exact effect_unlessBlank ht fun _ => effect_of_harmless ht (harmless_enter _)
  next hstep =>
    refine effect_unlessBlank ht fun hwritten => ?_
    rw [resetPrompt, outcome_bind_ok (outcome_enter {} t)]
    exact effect_of_asks (before_atPrompt ht {}) (asks_update _ _ _) (.edit hstep hwritten)
  next hstep =>
    refine effect_unlessBlank ht fun hwritten => ?_
    rw [resetPrompt, outcome_bind_ok (outcome_enter {} t)]
    exact effect_of_asks (before_atPrompt ht {}) (asks_delete _ _ _) (.removal hstep hwritten)

theorem effect_feed (reply : Query → σ → Reply × σ) (setup : Setup) (line : String)
    (s : Scene σ) :
    Effect reply setup line s ((feed setup line).outcome (watching reply) s.watched).2 := by
  have hbegun : Before s s.watched := ⟨rfl, List.forall_mem_nil _⟩
  rw [feed_eq]
  split
  next hidle =>
    cases hline : Command.ofLine? line with
    | none => exact .reads hbegun.reads hbegun.file
    | some command => exact effect_carryOut (s := s) (of_decide_eq_true hidle) hline rfl rfl
  next =>
    rw [answer, outcome_bind_ok (outcome_print _ _ _)]
    exact effect_takeAnswer ⟨rfl, List.forall_mem_nil _⟩

end Line

/-! ## Any line -/

/-- A command that only shows something, or tells what is wrong with a line. -/
def ReadsOnly : Command → Prop
  | .help | .log _ | .inspect _ | .reflog | .config _ none | .mistaken _ => True
  | .commit _ | .rebase _ | .reset _ | .config _ (some _) => False

/-- What may come of a line. -/
structure Contained (reply : Query → σ → Reply × σ) (setup : Setup) (line : String) (s : Scene σ)
    (record : Record) (file : StateFile) : Prop where
  sent : changes record = [] ∨
    ∃ c r, Orders reply setup line s c ∧ changes record = [(c.query setup.post, r)]
  config : file.config = s.terminal.file.config ∨
    ∃ name, s.terminal.prompt.step = .idle ∧
      Command.ofLine? line = some (.config authorKey (some name)) ∧ isBlankText name = false ∧
      file.config = Entries.put (.text authorKey) (.text name) s.terminal.file.config
  reflog : file.reflog = s.terminal.file.reflog ∨
    ∃ c r, Orders reply setup line s c ∧ changes record = [(c.query setup.post, r)] ∧
      Noted r s.terminal.file.reflog c file.reflog
  refused : ∀ (c : Change) (r : Reply), changes record = [(c.query setup.post, r)] →
    ¬c.Granted r → file = s.terminal.file
  reads : ∀ command, s.terminal.prompt.step = .idle → Command.ofLine? line = some command →
    ReadsOnly command → changes record = [] ∧ file = s.terminal.file

section AnyLine

variable {post : String} {line : String} {s : Scene σ} {s' : Scene (Record × σ)}

theorem Sends.changes_eq {c : Change} {r : Reply} {file : StateFile} (h : Sends post c r file s') :
    changes s'.server.1 = [(c.query post, r)] := by
  obtain ⟨before, more, hsent, hbefore, hmore⟩ := h.sent
  rw [hsent, changes, List.filter_append, List.filter_cons_of_pos (by simp [c.method_ne post])]
  rw [show List.filter _ before = _ from hbefore.changes_eq]
  rw [show List.filter _ more = _ from hmore.changes_eq]
  rfl

/-- Which replies grant a change is told from its request. -/
theorem granted_iff (post : String) (c : Change) (r : Reply) :
    c.Granted r ↔ if (c.query post).method = "POST" then
        ∃ receipt, heard Receipt.reader r = .ok receipt
      else ∃ notice, heard Notice.reader r = .ok notice := by
  cases c with
  | create author password message parent => exact Iff.rfl
  | update hash password message => exact Iff.rfl
  | delete hash password => exact Iff.rfl

/-- A line that orders a change is more than a line that shows something. -/
theorem Orders.not_readsOnly {c : Change} (h : Orders reply setup line s c)
    (hidle : s.terminal.prompt.step = .idle) {command : Command}
    (hline : Command.ofLine? line = some command) : ¬ReadsOnly command := by
  cases h with
  | commit idle hcommit said written =>
    rw [hline] at hcommit
    cases hcommit
    exact id
  | message step written =>
    rw [hidle] at step
    cases step
  | edit step written =>
    rw [hidle] at step
    cases step
  | removal step written =>
    rw [hidle] at step
    cases step
  | reset idle hreset resolves remembered =>
    rw [hline] at hreset
    cases hreset
    exact id

theorem contained_of_effect (h : Effect reply setup line s s') :
    Contained reply setup line s s'.server.1 s'.terminal.file := by
  cases h with
  | reads hsent hfile =>
    have hnone := hsent.changes_eq
    refine ⟨.inl hnone, .inl ?_, .inl ?_, fun _ _ _ _ => hfile, fun _ _ _ _ => ⟨hnone, hfile⟩⟩
    · rw [hfile]
    · rw [hfile]
  | configures hidle hline hsent hconfig hreflog =>
    obtain ⟨hkey, hname⟩ := Command.configurable_of_ofLine? hline
    obtain rfl := List.mem_singleton.mp hkey
    have hnone : changes s'.server.1 = [] := by
      rw [hsent]
      rfl
    refine ⟨.inl hnone, .inr ⟨_, hidle, hline, hname _ rfl, hconfig⟩, .inl hreflog, ?_, ?_⟩
    · intro c r hone
      rw [hnone] at hone
      cases hone
    · intro command _ hcommand hreads
      rw [hline] at hcommand
      cases hcommand
      exact hreads.elim
  | @changes c r hordered hsends =>
    have hone := hsends.changes_eq
    refine ⟨.inr ⟨c, r, hordered, hone⟩, .inl hsends.kept.config, ?_, ?_, ?_⟩
    · exact hsends.kept.reflog.imp_right fun hnoted => ⟨c, r, hordered, hone, hnoted⟩
    · intro c' r' hsame hrefused
      rw [hone] at hsame
      obtain ⟨hquery, rfl⟩ := Prod.mk.inj (List.singleton_inj.mp hsame)
      rw [granted_iff setup.post, ← hquery, ← granted_iff] at hrefused
      exact hsends.kept.refused hrefused
    · exact fun command hidle hline hreads =>
        absurd hreads (hordered.not_readsOnly hidle hline)

end AnyLine

/-- Whoever answers, and however, a line sends at most one change, which it orders, and
what is remembered changes only as it should. -/
theorem contained_feed (reply : Query → σ → Reply × σ) (setup : Setup) (line : String)
    (s : Scene σ) :
    Contained reply setup line s (exchanges reply (feed setup line) s)
      ((feed setup line).outcome reply s).2.terminal.file := by
  have hcontained := contained_of_effect (effect_feed reply setup line s)
  rw [terminal_watched] at hcontained
  exact hcontained

end CommentThreads.Terminal
