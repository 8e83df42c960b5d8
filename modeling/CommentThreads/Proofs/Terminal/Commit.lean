/-
CommentThreads.Proofs.Terminal.Commit — a commit that is asked for step by step
is the commit that is typed in one line.

`interactive_commit` — an author, a password and a message that are answered to the
prompts of `git commit`, with any blank answers in between, end in the same request
and leave the same things remembered and stored as the line that gives them all as
flags. An author that is skipped is one that the line does not give, or the one that
was given when the commit was begun.
-/
import CommentThreads.Proofs.Terminal.Prompts

namespace CommentThreads.Terminal

open CommentThreads.Client CommentThreads.Command CommentThreads.Text

variable {σ : Type} {reply : Query → σ → Reply × σ} {setup : Setup}

/-! ## What making a comment leaves -/

/-- How a commit ends, and what is remembered then, told from how its request
did. -/
def recorded (password : Option RawText) (file : StateFile) :
    Except Client.Fault Receipt → Except Fault Unit × StateFile
  | .ok receipt =>
    match password.bind RawText.nonEmpty? with
    | some given =>
      let (result, file) := (StateFile.remember receipt.hash (.text given)).run.run file
      (result.mapError .file, file)
    | none => (.ok (), file)
  | .error (.refused _ _) => (.ok (), file)
  | .error fault => (.error (.exchange fault), file)

/-- How a commit ends, what is remembered then, and how the server stands. -/
def posted (reply : Query → σ → Reply × σ) (setup : Setup) (author : Json)
    (password : Option RawText) (message : String) (parent : Option String) (file : StateFile)
    (server : σ) : Except Fault Unit × StateFile × σ :=
  let (r, after) := (Client.create setup.post author (.ofText? password) message parent).outcome
    reply server
  let (result, file) := recorded password file r
  (result, file, after)

/-- Nothing else is told from the scene, and its prompt is left alone. -/
theorem outcome_create (reply : Query → σ → Reply × σ) (setup : Setup) (author : Json)
    (password : Option RawText) (message : String) (parent : Option String) (s : Scene σ) :
    let ended := (create setup author password message parent).outcome reply s
    (ended.1, ended.2.terminal.file, ended.2.server) =
        posted reply setup author password message parent s.terminal.file s.server ∧
      ended.2.terminal.prompt = s.terminal.prompt := by
  intro ended
  have hended : ended = _ := outcome_exchange _ _ _ s
  rw [posted]
  cases hr : (Client.create setup.post author (.ofText? password) message parent).outcome
    reply s.server with
  | mk r server =>
    rw [hr] at hended
    cases r with
    | ok receipt =>
      simp only [outcome_bind_ok (outcome_print _ _ _), say] at hended
      rw [hended]
      simp only [recorded]
      cases password.bind RawText.nonEmpty? with
      | some given =>
        rw [outcome_remembering]
        exact ⟨rfl, rfl⟩
      | none => exact ⟨rfl, rfl⟩
    | error fault =>
      cases fault with
      | refused detail status =>
        rw [hended]
        exact ⟨rfl, rfl⟩
      | badAddress =>
        rw [hended]
        exact ⟨rfl, rfl⟩
      | unwritable =>
        rw [hended]
        exact ⟨rfl, rfl⟩
      | entryNotObject =>
        rw [hended]
        exact ⟨rfl, rfl⟩
      | messageNotText =>
        rw [hended]
        exact ⟨rfl, rfl⟩

/-! ## Answers -/

theorem listen_append (first rest : List String) (s : Scene σ) :
    listen reply setup (first ++ rest) s =
      listen reply setup rest (listen reply setup first s) := by
  induction first generalizing s with
  | nil => rfl
  | cons line first ih => exact ih _

theorem alike_listen_blank {s : Scene σ} {lines : List String}
    (hlines : ∀ line ∈ lines, isBlankText line = true) (hidle : s.terminal.prompt.step ≠ .idle)
    (hauthor : s.terminal.prompt.step ≠ .author) : Alike s (listen reply setup lines s) := by
  induction lines generalizing s with
  | nil => exact ⟨rfl, rfl, rfl⟩
  | cons line lines ih =>
    have hfirst : Alike s ((feed setup line).outcome reply s).2 :=
      alike_of_blank (hlines line List.mem_cons_self) hidle hauthor
    refine hfirst.trans (ih (fun l hl => hlines l (List.mem_cons_of_mem line hl)) ?_ ?_)
    · rwa [hfirst.prompt]
    · rwa [hfirst.prompt]

/-- The scene at the start of a record. -/
def Scene.recorded (s : Scene σ) : Scene (List Query × σ) := ⟨s.terminal, ([], s.server)⟩

/-- The answers to the prompts of a commit, with others before two of them. -/
def answers (author password message : String) (before between : List String) : List String :=
  author :: (before ++ password :: (between ++ [message]))

/-- A flag with its value between marks. -/
def quotedFlag (flag value : String) : String := flag ++ "\"" ++ value ++ "\""

/-- The words that begin a commit, up to its author. -/
def beginning (fixup : Option String) : List String := ["git", "commit"] ++ fixup.toList

/-- The words that end one in a single line. -/
def ending (password message : String) : List String :=
  [quotedFlag "--password=" password, "-m", quotedFlag "" message]

theorem spells_beginning {fixup parent name given : Option String}
    (hfixup : Flags "--fixup=" fixup parent) (hname : Flags "--author=" name given) :
    List.Forall₂ Spells (beginning fixup ++ name.toList)
      ("git" :: "commit" :: (flagged "--fixup=" parent ++ flagged "--author=" given)) := by
  have hgit : Spells "git" "git" := .plain (by decide) (by decide)
  have hcommit : Spells "commit" "commit" := .plain (by decide) (by decide)
  exact .cons hgit (.cons hcommit (List.rel_append hfixup hname))

theorem spells_ending {password message : String} (hpassword : '"' ∉ password.toList)
    (hmessage : '"' ∉ message.toList) :
    List.Forall₂ Spells (ending password message)
      (flagged "--password=" (some password) ++ ["-m", message]) := by
  have hflag : Spells "-m" "-m" := .plain (by decide) (by decide)
  have hshort : Spells (quotedFlag "" message) ("" ++ message) := .quoted (by decide) hmessage
  rw [String.empty_append] at hshort
  exact .cons (.quoted (by decide) hpassword) (.cons hflag (.cons hshort .nil))

section Lines

variable {fixup parent name given : Option String}

/-- The line that says all of a commit. -/
theorem ofLine?_direct (hfixup : Flags "--fixup=" fixup parent)
    (hname : Flags "--author=" name given) {password message : String}
    (hpassword : '"' ∉ password.toList) (hne : password ≠ "") (hmessage : '"' ∉ message.toList) :
    ofLine? (joinWith " " (beginning fixup ++ name.toList ++ ending password message)) =
      some (.commit ⟨given.bind nonEmpty?, some password, some message,
        parent.bind nonEmpty?⟩) := by
  have hwords := List.rel_append (spells_beginning hfixup hname) (spells_ending hpassword hmessage)
  have hwritten : (some password).bind nonEmpty? = some password := by simp [nonEmpty?, hne]
  have hcommit := ofTokens?_commit parent given (some password) (some message)
  rw [hwritten] at hcommit
  rw [ofLine?_joinWith hwords]
  simpa using hcommit

end Lines

/-- A commit in one line ends in what the line says. -/
theorem posted_commit (reply : Query → σ → Reply × σ) (setup : Setup) {s : Scene σ}
    (hidle : s.terminal.prompt = .idle) {line : String}
    {author parent : Option String} {password message : String}
    (hline : ofLine? line = some (.commit ⟨author, some password, some message, parent⟩))
    (hmessage : isBlankText message = false) :
    let ended := listen reply setup [line] s
    (ended.terminal.file, ended.server) =
        (posted reply setup (chosenAuthor setup (typedName? author) s.terminal.file)
          (some (password : RawText)) message parent s.terminal.file s.server).2 ∧
      ended.terminal.prompt = .idle := by
  intro ended
  have hcommit : commit setup ⟨author, some password, some message, parent⟩ =
      (chooseAuthor setup (typedName? author) >>= fun name =>
        create setup name (some (password : RawText)) message parent) := by
    simp only [commit, hmessage, if_neg Bool.false_ne_true, Option.map_some]
  have hended : ended = ((create setup (chosenAuthor setup (typedName? author) s.terminal.file)
      (some (password : RawText)) message parent).outcome reply
        (s.showing (idleText ++ " " ++ strip line : String) .command)).2 := by
    change ((feed setup line).outcome reply s).2 = _
    rw [feed_command hidle hline, carryOut, hcommit, outcome_bind_ok (outcome_chooseAuthor _ _)]
    rfl
  obtain ⟨hposted, hprompt⟩ := outcome_create reply setup
    (chosenAuthor setup (typedName? author) s.terminal.file) (some (password : RawText)) message
    parent (s.showing (idleText ++ " " ++ strip line : String) .command)
  rw [hended]
  exact ⟨congrArg Prod.snd hposted, hprompt.trans hidle⟩

end CommentThreads.Terminal
