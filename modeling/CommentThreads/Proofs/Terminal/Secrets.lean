/-
CommentThreads.Proofs.Terminal.Secrets — what is typed for a password does not show.

* `shown` — how the lines end that are typed while a terminal asks for something, and
  what is printed at each.
* `shown_of_secret` — two answers of the same length to a question for a password, each
  followed by the same lines, show the same, up to the end of what was begun. A new
  comment shows the same in any case; an edit and a removal if the check of the password
  has the same outcome.

The terminal, what it remembers and what is stored may be anything.
-/
import CommentThreads.Proofs.Client.Passwords
import CommentThreads.Proofs.Terminal.Prompts

namespace CommentThreads.Terminal

open CommentThreads.Client CommentThreads.Http CommentThreads.Server CommentThreads.Store
  CommentThreads.Text

/-! ## What is shown -/

section Showing

variable {σ : Type} {reply : Query → σ → Reply × σ} {setup : Setup}

/-- How some lines end, up to the end of what was begun, and what is printed at each. -/
def shown (reply : Query → σ → Reply × σ) (setup : Setup) :
    List String → Scene σ → List (Except Fault Unit × List Line)
  | [], _ => []
  | line :: rest, s =>
    if s.terminal.prompt.isIdle then []
    else
      let (ended, after) := (feed setup line).outcome reply s
      (ended, after.terminal.output.drop s.terminal.output.length) :: shown reply setup rest after

theorem shown_of_idle {s : Scene σ} (h : s.terminal.prompt.isIdle = true) (lines : List String) :
    shown reply setup lines s = [] := by
  cases lines with
  | nil => rfl
  | cons line rest => rw [shown, if_pos h]

/-- What is shown at a line, and after it. -/
theorem shown_cons {line : String} {s after : Scene σ} {ended : Except Fault Unit}
    (hidle : s.terminal.prompt.isIdle = false)
    (h : (feed setup line).outcome reply s = (ended, after)) (rest : List String) :
    shown reply setup (line :: rest) s =
      (ended, after.terminal.output.drop s.terminal.output.length) ::
        shown reply setup rest after := by
  rw [shown, if_neg (by simp [hidle]), h]

/-- Two ends at an idle terminal that cannot be told apart by what is printed. -/
structure SameEnd (run run' : Except Fault Unit × Scene σ) : Prop where
  result : run.1 = run'.1
  output : run.2.terminal.output = run'.2.terminal.output
  idle : run.2.terminal.prompt = .idle
  idle' : run'.2.terminal.prompt = .idle

theorem shown_cons_of_sameEnd {line line' : String} {s s' : Scene σ}
    (hidle : s.terminal.prompt.isIdle = false) (hidle' : s'.terminal.prompt.isIdle = false)
    (houtput : s.terminal.output = s'.terminal.output)
    (h : SameEnd ((feed setup line).outcome reply s) ((feed setup line').outcome reply s'))
    (rest : List String) :
    shown reply setup (line :: rest) s = shown reply setup (line' :: rest) s' := by
  rw [shown_cons hidle (Prod.eta _).symm, shown_cons hidle' (Prod.eta _).symm,
    shown_of_idle (by rw [h.idle]; rfl), shown_of_idle (by rw [h.idle']; rfl), h.result, h.output,
    houtput]

theorem shown_cons_congr {line line' : String} {s s' : Scene σ}
    (hidle : s.terminal.prompt.isIdle = false) (hidle' : s'.terminal.prompt.isIdle = false)
    (houtput : s.terminal.output = s'.terminal.output)
    (h : (feed setup line).outcome reply s = (feed setup line').outcome reply s')
    (rest : List String) :
    shown reply setup (line :: rest) s = shown reply setup (line' :: rest) s' := by
  rw [shown_cons hidle (Prod.eta _).symm, shown_cons hidle' (Prod.eta _).symm, h, houtput]

end Showing

/-! ## A new comment -/

/-- A prompt that has been told a password, and goes on with a step. -/
def Prompt.told (step : Step) (password : String) (p : Prompt) : Prompt :=
  { p with step := step, secret := some (password : RawText) }

section Creating

variable {σ : Type} [KeyValue σ] {s : Service} {host : String} {setup : Setup}
  {password password' : String}

/-- What is made of two requests is the same if both can be written or neither can, and
the answers are the same. -/
theorem result_asking_congr {α : Type} {q q' : Query} {site : Site σ}
    (hwritable : q.isWritable = q'.isWritable)
    (h : q.isWritable = true → (replyOf s host q site).1 = (replyOf s host q' site).1)
    (read : FieldReader α) :
    (Exchange.outcome (replyOf s host) (send q >>= receive read) site).1 =
      (Exchange.outcome (replyOf s host) (send q' >>= receive read) site).1 := by
  cases hq : q.isWritable with
  | true =>
    rw [result_of_heard _ hq, result_of_heard _ (hwritable ▸ hq), h hq]
  | false =>
    rw [Client.outcome_bind, Client.outcome_bind, outcome_send_of_not _ hq,
      outcome_send_of_not _ (hwritable ▸ hq)]

/-- Remembering a password fails, or does not, whatever the password is. -/
theorem result_remember (hash : RawText) (value value' : Json) (file : StateFile) :
    ((StateFile.remember hash value).run.run file).1 =
      ((StateFile.remember hash value').run.run file).1 := by
  obtain ⟨place, config, reflog⟩ := file
  cases place <;> rfl

/-- What is done with the answer to a new comment that has a password. -/
def received (password : String) (receipt : Receipt) : Session Unit := do
  print receipt.message .success
  say (" Author: " ++ receipt.author)
  say " 1 comment created"
  remembering (StateFile.remember receipt.hash (.text password))

theorem create_eq (hne : password ≠ "") (author : Json) (message : String)
    (parent : Option String) :
    create setup author (some (password : RawText)) message parent =
      exchange (Client.create setup.post author (.text password) message parent)
        (received password) sayRefusal := by
  have hgiven : (some (password : RawText)).bind RawText.nonEmpty? = some (password : RawText) := by
    simp [RawText.nonEmpty?, hne]
  simp only [create, hgiven]
  rfl

theorem sameEnd_received (receipt : Receipt) (scene scene' : Scene (Site σ))
    (hterminal : scene.terminal = scene'.terminal) (hidle : scene.terminal.prompt = .idle) :
    SameEnd ((received password receipt).outcome (replyOf s host) scene)
      ((received password' receipt).outcome (replyOf s host) scene') := by
  have hended (password : String) (scene : Scene (Site σ)) :
      (received password receipt).outcome (replyOf s host) scene =
        let written :=
          (StateFile.remember receipt.hash (.text password)).run.run scene.terminal.file
        (written.1.mapError .file,
          (((scene.showing receipt.message .success).showing (" Author: " ++ receipt.author)
            .output).showing " 1 comment created" .output).withFile written.2) := by
    have hsay (text : RawText) (scene : Scene (Site σ)) :
        (say text).outcome (replyOf s host) scene = (.ok (), scene.showing text .output) := rfl
    rw [received, outcome_bind_ok (outcome_print _ _ _), outcome_bind_ok (hsay _ _),
      outcome_bind_ok (hsay _ _), outcome_remembering]
    rfl
  have hidle' : scene'.terminal.prompt = .idle := by rw [← hterminal, hidle]
  rw [hended, hended]
  refine ⟨?_, ?_, hidle, hidle'⟩
  · rw [hterminal]
    exact congrArg (Except.mapError Fault.file) (result_remember _ _ _ _)
  · simp only [Scene.withFile, Scene.showing, hterminal]

/-- What comes of a new comment does not tell its password; one whose author cannot be
sent is not sent. -/
theorem result_create (hne : password ≠ "") (hne' : password' ≠ "") (author : Json)
    (message : String) (parent : Option String) (site : Site σ) :
    ((Client.create setup.post author (.text password) message parent).outcome
        (replyOf s host) site).1 =
      ((Client.create setup.post author (.text password') message parent).outcome
        (replyOf s host) site).1 := by
  let query (password : String) : Query := ⟨"POST", commentsTarget,
    some (NewComment.body setup.post author (.text password) message (parent.map .plain))⟩
  have hwritable (password : String) : (query password).isWritable = author.isSendable := by
    rw [Query.isWritable, Option.map_some, Option.getD_some, NewComment.isSendable_body]
    exact Bool.and_true _
  have hreply (h : (query password).isWritable = true) :
      (replyOf s host (query password) site).1 = (replyOf s host (query password') site).1 :=
    result_replyOf_create setup.post message author parent (hwritable password ▸ h) hne hne'
  exact result_asking_congr ((hwritable _).trans (hwritable _).symm) hreply Receipt.reader

theorem sameEnd_create (hne : password ≠ "") (hne' : password' ≠ "") (author : Json)
    (message : String) (parent : Option String) (scene : Scene (Site σ))
    (hidle : scene.terminal.prompt = .idle) :
    SameEnd
      ((create setup author (some (password : RawText)) message parent).outcome (replyOf s host)
        scene)
      ((create setup author (some (password' : RawText)) message parent).outcome (replyOf s host)
        scene) := by
  have hresult :
      ((Client.create setup.post author (.text password) message parent).outcome
          (replyOf s host) scene.server).1 =
        ((Client.create setup.post author (.text password') message parent).outcome
          (replyOf s host) scene.server).1 :=
    result_create hne hne' author message parent scene.server
  rw [create_eq hne, create_eq hne', outcome_exchange, outcome_exchange]
  revert hresult
  generalize (Client.create setup.post author (.text password) message parent).outcome
    (replyOf s host) scene.server = ended
  generalize (Client.create setup.post author (.text password') message parent).outcome
    (replyOf s host) scene.server = ended'
  obtain ⟨result, server⟩ := ended
  obtain ⟨result', server'⟩ := ended'
  rintro (rfl : result = result')
  cases result with
  | ok receipt =>
    exact sameEnd_received receipt (scene.withServer server) (scene.withServer server') rfl hidle
  | error fault =>
    cases fault <;> exact ⟨rfl, rfl, hidle, hidle⟩

/-- The lines that a commit takes for its message show the same, whatever was answered
for the password. -/
theorem shown_message (hne : password ≠ "") (hne' : password' ≠ "") (p : Prompt)
    (lines : List String) (scene : Scene (Site σ)) :
    shown (replyOf s host) setup lines (scene.atPrompt (p.told .message password)) =
      shown (replyOf s host) setup lines (scene.atPrompt (p.told .message password')) := by
  have hprompt (password : String) (scene : Scene (Site σ)) :
      (scene.atPrompt (p.told .message password)).terminal.prompt = p.told .message password := rfl
  have hidle (password : String) (scene : Scene (Site σ)) :
      (scene.atPrompt (p.told .message password)).terminal.prompt.isIdle = false := rfl
  have htaken (password answer : String) :
      takeAnswer setup answer (p.told .message password) =
        unlessBlank answer messageRequired (resetPrompt >>= fun _ =>
          create setup (p.name.getD .null) (some (password : RawText)) answer p.parent) := rfl
  induction lines generalizing scene with
  | nil => rfl
  | cons line rest ih =>
    let typed := scene.showing ("Message:" ++ " " ++ strip line : String) .command
    by_cases hblank : strip line = ""
    · have hagain (password : String) :
          (feed setup line).outcome (replyOf s host)
              (scene.atPrompt (p.told .message password)) =
            (.ok (), (typed.showing messageRequired .error).atPrompt
              (p.told .message password)) := by
        rw [feed_answer (hprompt password scene) rfl, htaken, unlessBlank, if_pos hblank]
        rfl
      rw [shown_cons rfl (hagain password), shown_cons rfl (hagain password'), ih]
      rfl
    · have hsent (password : String) :
          (feed setup line).outcome (replyOf s host)
              (scene.atPrompt (p.told .message password)) =
            (create setup (p.name.getD .null) (some (password : RawText)) (strip line)
              p.parent).outcome (replyOf s host) (typed.atPrompt .idle) := by
        exact feed_sending (hprompt password scene) rfl (htaken password (strip line)) hblank
      have hend : SameEnd
          ((create setup (p.name.getD .null) (some (password : RawText)) (strip line)
            p.parent).outcome (replyOf s host) (typed.atPrompt .idle))
          ((create setup (p.name.getD .null) (some (password' : RawText)) (strip line)
            p.parent).outcome (replyOf s host) (typed.atPrompt .idle)) :=
        sameEnd_create hne hne' (p.name.getD .null) (strip line) p.parent _ rfl
      rw [← hsent, ← hsent] at hend
      exact shown_cons_of_sameEnd (hidle password scene) (hidle password' scene) rfl hend rest

end Creating

/-! ## An edit and a removal -/

/-- The request for an edit. -/
def editQuery (hash : Option RawText) (password message : String) : Query :=
  ⟨"PUT", commentsTarget, some (Edit.body (.ofText? hash) (.text password) message)⟩

/-- The request for a removal. -/
def removalQuery (hash : Option RawText) (password : String) : Query :=
  ⟨"DELETE", commentsTarget, some (Removal.body (.ofText? hash) (.text password))⟩

/-- The request that an edit or a removal ends with, when a password is answered and
then some lines. -/
def Prompt.sent? (password : String) (lines : List String) (p : Prompt) : Option Query :=
  match p.step with
  | .editPassword =>
    (lines.find? fun line => !isBlankText line).map fun line =>
      editQuery p.hash password (strip line)
  | .deletePassword => some (removalQuery p.hash password)
  | _ => none

section Changing

variable {σ : Type} [KeyValue σ] {s : Service} {host : String} {setup : Setup}
  {password password' : String} {hash : Option RawText}

/-- The outcome of the check that the request comes to, if there is one. -/
def verdictSent (s : Service) (host : String) (prompt : Prompt) (password : String)
    (lines : List String) (site : Site σ) : Option Bool :=
  (prompt.sent? password lines).bind fun q => requestVerdict s (q.toRequest host) site

theorem verdictSent_blank {p : Prompt} (hp : p.step = .editPassword) {line : String}
    (hline : strip line = "") (password : String) (rest : List String) (site : Site σ) :
    verdictSent s host p password (line :: rest) site =
      verdictSent s host p password rest site := by
  have hblank : isBlankText line = true := (strip_eq_empty_iff line).mp hline
  simp only [verdictSent, Prompt.sent?, hp, List.find?_cons, hblank, Bool.not_true]

theorem verdictSent_message {p : Prompt} (hp : p.step = .editPassword) {line : String}
    (hline : ¬strip line = "") (password : String) (rest : List String) (site : Site σ) :
    verdictSent s host p password (line :: rest) site =
      requestVerdict s ((editQuery p.hash password (strip line)).toRequest host) site := by
  have hblank : isBlankText line = false := (strip_ne_empty_iff line).mp hline
  simp only [verdictSent, Prompt.sent?, hp, List.find?_cons, hblank, Bool.not_false,
    Option.map_some, Option.bind_some]

/-- Two requests that can be written or not, and are answered the same if so, come to the
same. -/
theorem outcome_asking_congr {α : Type} {q q' : Query} {site : Site σ}
    (hwritable : q.isWritable = q'.isWritable)
    (h : q.isWritable = true → replyOf s host q site = replyOf s host q' site)
    (read : FieldReader α) :
    Exchange.outcome (replyOf s host) (send q >>= receive read) site =
      Exchange.outcome (replyOf s host) (send q' >>= receive read) site := by
  rw [Client.outcome_bind, Client.outcome_bind]
  cases hq : q.isWritable with
  | true => rw [outcome_send _ hq, outcome_send _ (hwritable ▸ hq), h hq]
  | false => rw [outcome_send_of_not _ hq, outcome_send_of_not _ (hwritable ▸ hq)]

/-- Whether an edit can be written depends on the comment that it names. -/
theorem isWritable_editQuery (hash : Option RawText) (password message : String) :
    (editQuery hash password message).isWritable = (Json.ofText? hash).isSendable := by
  simp [editQuery, Query.isWritable, Edit.body, Json.isSendable, Json.entriesSendable]

theorem isWritable_removalQuery (hash : Option RawText) (password : String) :
    (removalQuery hash password).isWritable = (Json.ofText? hash).isSendable := by
  simp [removalQuery, Query.isWritable, Removal.body, Json.isSendable, Json.entriesSendable]

/-- A hash that can be sent is a string, if there is one. -/
theorem eq_none_or_plain (h : (Json.ofText? hash).isSendable = true) :
    hash = none ∨ ∃ name : String, hash = some (name : RawText) := by
  cases hash with
  | none => exact .inl rfl
  | some t =>
    obtain ⟨name, rfl⟩ := RawText.isPlain_iff.mp h
    exact .inr ⟨name, rfl⟩

theorem outcome_update_congr (hne : password ≠ "") (hne' : password' ≠ "") {message : String}
    (hmessage : isBlankText message = false) (scene : Scene (Site σ))
    (hverdict : requestVerdict s ((editQuery hash password message).toRequest host) scene.server =
      requestVerdict s ((editQuery hash password' message).toRequest host) scene.server) :
    (update setup hash (some (password : RawText)) message).outcome (replyOf s host) scene =
      (update setup hash (some (password' : RawText)) message).outcome (replyOf s host) scene := by
  have hwritable := isWritable_editQuery hash
  have hasked : (Client.update (.ofText? hash) (.ofText? (some (password : RawText)))
        message).outcome (replyOf s host) scene.server =
      (Client.update (.ofText? hash) (.ofText? (some (password' : RawText))) message).outcome
        (replyOf s host) scene.server := by
    have hreply (h : (editQuery hash password message).isWritable = true) :
        replyOf s host (editQuery hash password message) scene.server =
          replyOf s host (editQuery hash password' message) scene.server := by
      rw [hwritable] at h
      rcases eq_none_or_plain h with rfl | ⟨name, rfl⟩
      · exact replyOf_update_unnamed password password' message
      · exact replyOf_update hne hne' hmessage hverdict
    exact outcome_asking_congr ((hwritable _ _).trans (hwritable _ _).symm) hreply Notice.reader
  rw [update, update, outcome_exchange, outcome_exchange, hasked]

theorem outcome_delete_congr (hne : password ≠ "") (hne' : password' ≠ "")
    (scene : Scene (Site σ))
    (hverdict : requestVerdict s ((removalQuery hash password).toRequest host) scene.server =
      requestVerdict s ((removalQuery hash password').toRequest host) scene.server) :
    (delete setup hash (.text password) true).outcome (replyOf s host) scene =
      (delete setup hash (.text password') true).outcome (replyOf s host) scene := by
  have hwritable := isWritable_removalQuery hash
  have hasked : (Client.delete (.ofText? hash) (.text password)).outcome (replyOf s host)
        scene.server =
      (Client.delete (.ofText? hash) (.text password')).outcome (replyOf s host) scene.server := by
    have hreply (h : (removalQuery hash password).isWritable = true) :
        replyOf s host (removalQuery hash password) scene.server =
          replyOf s host (removalQuery hash password') scene.server := by
      rw [hwritable] at h
      rcases eq_none_or_plain h with rfl | ⟨name, rfl⟩
      · exact replyOf_delete_unnamed password password'
      · exact replyOf_delete hne hne' hverdict
    exact outcome_asking_congr ((hwritable _).trans (hwritable _).symm) hreply Notice.reader
  rw [delete, delete, outcome_exchange, outcome_exchange, hasked]

/-- The lines that an edit takes for its message show the same, if the check has the
same outcome. -/
theorem shown_editMessage (hne : password ≠ "") (hne' : password' ≠ "") {p : Prompt}
    (hp : p.step = .editPassword) (lines : List String) (scene : Scene (Site σ))
    (hverdict : verdictSent s host p password lines scene.server =
      verdictSent s host p password' lines scene.server) :
    shown (replyOf s host) setup lines (scene.atPrompt (p.told .editMessage password)) =
      shown (replyOf s host) setup lines (scene.atPrompt (p.told .editMessage password')) := by
  have hprompt (password : String) (scene : Scene (Site σ)) :
      (scene.atPrompt (p.told .editMessage password)).terminal.prompt =
        p.told .editMessage password := rfl
  have hidle (password : String) (scene : Scene (Site σ)) :
      (scene.atPrompt (p.told .editMessage password)).terminal.prompt.isIdle = false := rfl
  have htaken (password answer : String) :
      takeAnswer setup answer (p.told .editMessage password) =
        unlessBlank answer messageRequired (resetPrompt >>= fun _ =>
          update setup p.hash (some (password : RawText)) answer) := rfl
  induction lines generalizing scene with
  | nil => rfl
  | cons line rest ih =>
    let typed := scene.showing ("Message:" ++ " " ++ strip line : String) .command
    by_cases hblank : strip line = ""
    · have hagain (password : String) :
          (feed setup line).outcome (replyOf s host)
              (scene.atPrompt (p.told .editMessage password)) =
            (.ok (), (typed.showing messageRequired .error).atPrompt
              (p.told .editMessage password)) := by
        rw [feed_answer (hprompt password scene) rfl, htaken, unlessBlank, if_pos hblank]
        rfl
      rw [verdictSent_blank hp hblank, verdictSent_blank hp hblank] at hverdict
      rw [shown_cons rfl (hagain password), shown_cons rfl (hagain password'),
        ih (typed.showing messageRequired .error) hverdict]
      rfl
    · have hsent (password : String) :
          (feed setup line).outcome (replyOf s host)
              (scene.atPrompt (p.told .editMessage password)) =
            (update setup p.hash (some (password : RawText)) (strip line)).outcome
              (replyOf s host) (typed.atPrompt .idle) := by
        exact feed_sending (hprompt password scene) rfl (htaken password (strip line)) hblank
      have hmessage : isBlankText (strip line) = false := by
        rw [isBlankText_strip, ← strip_ne_empty_iff]
        exact hblank
      rw [verdictSent_message hp hblank, verdictSent_message hp hblank] at hverdict
      refine shown_cons_congr (hidle password scene) (hidle password' scene) rfl ?_ rest
      rw [hsent, hsent]
      exact outcome_update_congr hne hne' hmessage (typed.atPrompt .idle) hverdict

end Changing

/-! ## Any secret -/

section Secret

variable {σ : Type} [KeyValue σ] {s : Service} {host : String} {setup : Setup}

theorem shownAnswer_congr {prompt : Prompt} (h : prompt.isSecret = true) {answer answer' : String}
    (hlength : answer.length = answer'.length) :
    shownAnswer prompt answer = shownAnswer prompt answer' := by
  rw [shownAnswer, shownAnswer, if_pos h, if_pos h, hlength]

theorem isSecret_eq_true_iff (p : Prompt) : p.isSecret = true ↔
    p.step = .password ∨ p.step = .editPassword ∨ p.step = .deletePassword := by
  rw [Prompt.isSecret]
  cases p.step <;> decide

/-- Two answers of the same length to a question for a password, each followed by the
same lines, show the same up to the end of what was begun: for a new comment in any
case, for an edit and a removal if the check has the same outcome. -/
theorem shown_of_secret {scene : Scene (Site σ)} (hsecret : scene.terminal.prompt.isSecret = true)
    {a b : String} (ha : isBlankText a = false) (hb : isBlankText b = false)
    (hlength : (strip a).length = (strip b).length) (lines : List String)
    (hverdict : scene.terminal.prompt.step ≠ .password →
      verdictSent s host scene.terminal.prompt (strip a) lines scene.server =
        verdictSent s host scene.terminal.prompt (strip b) lines scene.server) :
    shown (replyOf s host) setup (a :: lines) scene =
      shown (replyOf s host) setup (b :: lines) scene := by
  have hne := (strip_ne_empty_iff a).mpr ha
  have hne' := (strip_ne_empty_iff b).mpr hb
  have hstars := shownAnswer_congr hsecret hlength
  generalize hprompt : scene.terminal.prompt = p at hsecret hstars hverdict
  have hidle : p.isIdle = false := by
    rw [Prompt.isIdle_eq_false_iff]
    rintro hstep
    rw [Prompt.isSecret, hstep] at hsecret
    cases hsecret
  have hscene : scene.terminal.prompt.isIdle = false := hprompt ▸ hidle
  rcases (isSecret_eq_true_iff p).mp hsecret with hstep | hstep | hstep
  · have hnext {line : String} (hline : strip line ≠ "") :
        (feed setup line).outcome (replyOf s host) scene =
          (.ok (), (scene.showing (p.text ++ " " ++ shownAnswer p (strip line) : String)
            .command).atPrompt (p.told .message (strip line))) := by
      have htaken : takeAnswer setup (strip line) p = unlessBlank (strip line) passwordRequired
          (enter (p.told .message (strip line))) := by
        rw [takeAnswer, hstep]
        rfl
      exact feed_given hprompt hidle htaken hline
    rw [shown_cons hscene (hnext hne), shown_cons hscene (hnext hne'), hstars,
      shown_message hne hne']
    rfl
  · have hnext {line : String} (hline : strip line ≠ "") :
        (feed setup line).outcome (replyOf s host) scene =
          (.ok (), (scene.showing (p.text ++ " " ++ shownAnswer p (strip line) : String)
            .command).atPrompt (p.told .editMessage (strip line))) := by
      have htaken : takeAnswer setup (strip line) p = unlessBlank (strip line) passwordRequired
          (enter (p.told .editMessage (strip line))) := by
        rw [takeAnswer, hstep]
        rfl
      exact feed_given hprompt hidle htaken hline
    have hsame := hverdict (by simp [hstep])
    rw [shown_cons hscene (hnext hne), shown_cons hscene (hnext hne'), hstars,
      shown_editMessage hne hne' hstep lines (scene.showing _ .command) hsame]
    rfl
  · have hsent {line : String} (hline : strip line ≠ "") :
        (feed setup line).outcome (replyOf s host) scene =
          (delete setup p.hash (.text (strip line)) true).outcome (replyOf s host)
            ((scene.showing (p.text ++ " " ++ shownAnswer p (strip line) : String)
              .command).atPrompt .idle) := by
      have htaken : takeAnswer setup (strip line) p = unlessBlank (strip line) passwordRequired
          (resetPrompt >>= fun _ => delete setup p.hash (.text (strip line)) true) := by
        rw [takeAnswer, hstep]
      exact feed_sending hprompt hidle htaken hline
    have hsame := hverdict (by simp [hstep])
    simp only [verdictSent, Prompt.sent?, hstep, Option.bind_some] at hsame
    refine shown_cons_congr hscene hscene rfl ?_ lines
    rw [hsent hne, hsent hne', hstars]
    exact outcome_delete_congr hne hne' _ hsame

/-- Two long passwords that differ in their last character only, and so are both taken,
are answered to an edit; the message is asked for twice. -/
theorem shown_of_secret_long :
    let s : Service := ⟨Settings.standard, "$2b$04$abcdefghijklmnopqrstuu", true⟩
    let a := String.ofList (List.replicate 72 'a' ++ ['x'])
    let b := String.ofList (List.replicate 72 'a' ++ ['y'])
    let comment : Comment := ⟨"0a1b2c3d", "intro", "Ann", "Hello", none, .utc 0, none⟩
    let scene (stored : String) : Scene (Site Memory) :=
      ⟨⟨.editPassword "0a1b2c3d", ⟨.memory, [], []⟩, []⟩,
        ⟨⟨[(recordKey "0a1b2c3d", comment.toJson), (passwordKey "0a1b2c3d", .text stored)],
          [(indexKey "intro", ["0a1b2c3d"])]⟩, ⟨fun _ => "0a1b2c3d", fun _ => 0, 0, 0⟩⟩⟩
    let lines := [" ", " Bye "]
    ∃ stored, Password.hash? s.salt a = some stored ∧
      (scene stored).terminal.prompt.isSecret = true ∧ isBlankText a = false ∧
      isBlankText b = false ∧ (strip a).length = (strip b).length ∧ strip a ≠ strip b ∧
      verdictSent s "localhost" (scene stored).terminal.prompt (strip a) lines
          (scene stored).server =
        verdictSent s "localhost" (scene stored).terminal.prompt (strip b) lines
          (scene stored).server ∧
      shown (replyOf s "localhost") ⟨"intro", "Guest", 0⟩ (a :: lines) (scene stored) =
        shown (replyOf s "localhost") ⟨"intro", "Guest", 0⟩ (b :: lines) (scene stored) := by
  intro s a b comment scene lines
  have hsalt : (Password.Salt.ofText? s.salt).isSome = true := by decide +kernel
  obtain ⟨salt, hsalt⟩ := Option.isSome_iff_exists.mp hsalt
  obtain ⟨stored, hstored⟩ : ∃ stored, Password.hash? s.salt a = some stored :=
    ⟨_, (Password.hash?_plain s.salt a).trans (Option.map_eq_some_iff.mpr ⟨salt, hsalt, rfl⟩)⟩
  have ha : isBlankText a = false := by decide +kernel
  have hb : isBlankText b = false := by decide +kernel
  have hlength : (strip a).length = (strip b).length := by decide +kernel
  have hdiffer : strip a ≠ strip b := by decide +kernel
  have hbytes : Password.passwordBytes (strip a) = Password.passwordBytes (strip b) := by
    decide +kernel
  have haccepts := accepts_of_bytes ((strip_ne_empty_iff a).mpr ha) ((strip_ne_empty_iff b).mpr hb)
    hbytes
  let hash : RawText := "0a1b2c3d"
  let query (password : String) : Query := editQuery (some hash) password "Bye"
  have hpresented : presented? s ((query (strip a)).toRequest "localhost") =
      some (hash, (strip a : RawText)) := by decide +kernel
  have hpresented' : presented? s ((query (strip b)).toRequest "localhost") =
      some (hash, (strip b : RawText)) := by decide +kernel
  have hchecked {password : String} (h : presented? s ((query password).toRequest "localhost") =
      some (hash, (password : RawText))) :
      requestVerdict s ((query password).toRequest "localhost") (scene stored).server =
        verdict "0a1b2c3d" password (scene stored).server := by
    rw [requestVerdict, h, Option.bind_some]
  have hsent (password : String) : verdictSent s "localhost" (.editPassword "0a1b2c3d") password
      lines (scene stored).server =
        requestVerdict s ((query password).toRequest "localhost") (scene stored).server := by
    have hfound : lines.find? (fun line => !isBlankText line) = some " Bye " := by decide +kernel
    have hbye : strip " Bye " = "Bye" := by decide +kernel
    rw [verdictSent, Prompt.sent?, hfound, Option.map_some, Option.bind_some, hbye]
  have hverdict : verdictSent s "localhost" (.editPassword "0a1b2c3d") (strip a) lines
        (scene stored).server =
      verdictSent s "localhost" (.editPassword "0a1b2c3d") (strip b) lines
        (scene stored).server :=
    calc
      _ = verdict "0a1b2c3d" (strip a) (scene stored).server :=
        (hsent (strip a)).trans (hchecked hpresented)
      _ = verdict "0a1b2c3d" (strip b) (scene stored).server :=
        verdict_of_accepts haccepts _ _
      _ = _ := ((hsent (strip b)).trans (hchecked hpresented')).symm
  exact ⟨stored, hstored, rfl, ha, hb, hlength, hdiffer, hverdict,
    shown_of_secret rfl ha hb hlength lines fun _ => hverdict⟩

end Secret

end CommentThreads.Terminal
