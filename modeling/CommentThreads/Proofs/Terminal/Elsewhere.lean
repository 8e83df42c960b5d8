/-
CommentThreads.Proofs.Terminal.Elsewhere — a comment that was made at one terminal is
changed at another one, where its password is asked for.

A commit in one line takes its password as it stands between the marks, with all white
space. The answer to a prompt is taken without the white space around it, and a blank
one is asked for again. So the prompts for an edit and for a removal take of a password
what is left without the white space around it (`Prompted`), and that is let through if
the hash of the whole password accepts it.

* `asked_elsewhere` — so it is for every password that a commit can be made with. A
  password that has no white space around it is let through, and so is one that differs
  from what is left of it behind its first 72 bytes at most.
* `asked_elsewhere_blank` — a comment that was made with a blank password stays.
-/
import CommentThreads.Proofs.Client.Credentials
import CommentThreads.Proofs.Terminal.Commit
import CommentThreads.Proofs.Terminal.Recall
import CommentThreads.Proofs.Terminal.Show

namespace CommentThreads.Terminal

open CommentThreads.Client CommentThreads.Command CommentThreads.Http CommentThreads.Server
  CommentThreads.Store CommentThreads.Text

/-! ## What is typed -/

/-- A commit in one line, with a password and a message between marks. -/
def commitLine (password message : String) : String :=
  joinWith " " (beginning none ++ ending password message)

example : commitLine "a b " "Hello" = "git commit --password=\"a b \" -m \"Hello\"" := rfl

theorem ofLine?_commitLine {password message : String} (hpassword : '"' ∉ password.toList)
    (hne : password ≠ "") (hmessage : '"' ∉ message.toList) :
    ofLine? (commitLine password message) =
      some (.commit ⟨none, some password, some message, none⟩) := by
  have hfixup : Flags "--fixup=" none none := .nil
  have hname : Flags "--author=" none none := .nil
  exact ofLine?_direct hfixup hname hpassword hne hmessage

/-- The line that begins a removal. -/
def resetLine (hash : String) : String := "git reset --hard " ++ hash

/-- The line that begins an edit. -/
def rebaseLine (hash : String) : String := "git rebase -i " ++ hash

variable {σ : Type} [KeyValue σ]

/-! ## How a change ends -/

/-- A comment was removed, by one whose password was let through. -/
structure IsRemoved (hash password : String) (site : Site σ) (ended : Scene (Site σ)) : Prop where
  made : ∃ c, (Store.delete hash password).outcome site = (.ok c, ended.server)
  gone : ¬Stored hash ended.server
  idle : ended.terminal.prompt = .idle

/-- A comment was given another message, by one whose password was let through. -/
structure IsEdited (hash password message : String) (site : Site σ) (ended : Scene (Site σ)) :
    Prop where
  made : ∃ c, (Store.update hash password message).outcome site = (.ok c, ended.server) ∧
    c.message = message ∧ ((Store.find hash).outcome ended.server).1 = .ok (some c)
  idle : ended.terminal.prompt = .idle

/-- A password was not let through, and nothing was done. -/
structure IsDenied (site : Site σ) (ended : Scene (Site σ)) : Prop where
  server_eq : ended.server = site
  said : ended.terminal.output.getLast? = some refusalLine
  idle : ended.terminal.prompt = .idle

/-- A terminal asks still, and nothing was done. -/
structure AsksStill (prompt : Prompt) (site : Site σ) (ended : Scene (Site σ)) : Prop where
  server_eq : ended.server = site
  prompt_eq : ended.terminal.prompt = prompt

/-- What the prompts for a removal and for an edit make of an answer, at a terminal where
the password is asked for. -/
structure Prompted (settings : Settings) (reply : Query → Site σ → Reply × Site σ) (setup : Setup)
    (hash answer : String) (s : Scene (Site σ)) : Prop where
  removes : Admits hash (strip answer) s.server →
    IsRemoved hash (strip answer) s.server (listen reply setup [resetLine hash, answer] s)
  edits : Admits hash (strip answer) s.server → ∀ message, isBlankText message = false →
    fits settings (strip message) = true →
      IsEdited hash (strip answer) (strip message) s.server
        (listen reply setup [rebaseLine hash, answer, message] s)
  again : isBlankText answer = true →
    AsksStill (.deletePassword hash) s.server (listen reply setup [resetLine hash, answer] s) ∧
      AsksStill (.editPassword hash) s.server (listen reply setup [rebaseLine hash, answer] s)
  denies : isBlankText answer = false → ¬Admits hash (strip answer) s.server →
    IsDenied s.server (listen reply setup [resetLine hash, answer] s) ∧
      ∀ message, isBlankText message = false → fits settings (strip message) = true →
        IsDenied s.server (listen reply setup [rebaseLine hash, answer, message] s)

variable [Viewed σ] [TakesAll σ]

/-! ## A comment with a lock -/

/-- A comment that was not there before is the one that is locked. -/
theorem lock_of_new {site after : Site σ} {l : Ledger} {salt password hash : String}
    (h : LockedWith salt password l after) (hl : Keeps site.store l) (habsent : ¬Stored hash site)
    (hmade : Stored hash after) :
    ∃ (c : Comment) (stored : String), Password.hash? salt password = some stored ∧
      c.hash = hash ∧
      c.author.isPlain = true ∧ Keeps after.store (⟨c, some stored⟩ :: l) := by
  rcases h with hsame | ⟨c, stored, hauthor, hhash, hkeeps⟩
  · exact absurd ((stored_iff hl hash).mpr ((stored_iff hsame hash).mp hmade)) habsent
  · refine ⟨c, stored, hhash, ?_, hauthor, hkeeps⟩
    by_contra hother
    obtain ⟨found, hfound⟩ := (stored_iff hkeeps hash).mp hmade
    rw [Ledger.comments_cons, Ledger.withHash?_cons, if_neg hother] at hfound
    exact habsent ((stored_iff hl hash).mpr ⟨found, hfound⟩)

/-- A store keeps the same comments in all ledgers, so they are lettered in all if in one. -/
theorem lettered_of_keeps {site : Site σ} {l l' : Ledger} (hl : Keeps site.store l)
    (hl' : Keeps site.store l') (hletters : ∀ c ∈ l.comments, Lettered c) :
    ∀ c ∈ l'.comments, Lettered c := by
  intro c hc
  have hfound := (outcome_find hl c.hash).symm.trans (outcome_find hl' c.hash)
  rw [Ledger.withHash?_of_mem hl'.distinct hc] at hfound
  exact hletters c (Ledger.mem_of_withHash? (Except.ok.inj (Prod.mk.inj hfound).1))

/-- A comment with a lock, by an author who can be written, at a service that has all it
needs. -/
structure Locked (s : Service) (host hash stored : String) (site : Site σ) : Prop where
  ready : Ready s host site
  drawn : IsDrawn hash
  kept : ∃ (c : Comment) (l : Ledger), c.hash = hash ∧ c.author.isPlain = true ∧
    Keeps site.store (⟨c, some stored⟩ :: l) ∧
    ∀ kept ∈ Ledger.comments (⟨c, some stored⟩ :: l), Lettered kept

section Locked

variable {s : Service} {host hash stored given : String} {site : Site σ}

/-- The check lets through what the hash accepts. -/
theorem Locked.admits_iff (h : Locked s host hash stored site) (given : String) :
    Admits hash given site ↔ Accepts stored given := by
  obtain ⟨c, l, hhash, -, hl, -⟩ := h.kept
  rw [Admits, ← hhash]
  exact Client.admits_iff hl given

theorem Locked.isStored (h : Locked s host hash stored site) : Stored hash site := by
  obtain ⟨c, l, hhash, -, hl, -⟩ := h.kept
  refine (stored_iff hl hash).mpr ⟨c, ?_⟩
  rw [Ledger.comments_cons, Ledger.withHash?_cons, if_pos hhash]

/-- Who is let through opens the comment. -/
theorem Locked.opens (h : Locked s host hash stored site) (hadmits : Admits hash given site) :
    ∃ t, KeepsAt site t ∧ (∀ c ∈ t.store.comments, Lettered c) ∧ Opens hash given t.store := by
  have haccepts := (opens_iff stored given).mpr ((h.admits_iff given).mp hadmits)
  obtain ⟨c, l, hhash, hauthor, hl, hletters⟩ := h.kept
  refine ⟨⟨_, site.supply⟩, ⟨hl, rfl⟩, hletters, fun p hp => ?_⟩
  rw [Ledger.posting?_cons, if_pos hhash] at hp
  cases hp
  exact ⟨hauthor, stored, rfl, haccepts⟩

/-- Who is not let through has a wrong password. -/
theorem Locked.wrong (h : Locked s host hash stored site) (hdenied : ¬Admits hash given site) :
    ∃ l, Keeps site.store l ∧ Ledger.authorize hash given l = .error (.wrongPassword hash) := by
  have hno : ¬Ledger.opens given stored = true := fun hopens =>
    hdenied ((h.admits_iff given).mpr ((opens_iff stored given).mp hopens))
  obtain ⟨c, l, hhash, -, hl, -⟩ := h.kept
  refine ⟨_, hl, ?_⟩
  rw [← hhash, authorize_locked, if_neg hno]

end Locked

/-! ## The threads that are shown after a change -/

section Showing

variable {s : Service} {host : String}

/-- Asking for the threads of a post leaves a service as it is. -/
theorem server_threads {site : Site σ} {l : Ledger} (hhost : GoesBy s.settings host)
    (hstore : s.hasStore = true) (hl : Keeps site.store l) (post : String) :
    ((Client.threads post).outcome (replyOf s host) site).2 = site := by
  cases htarget : Target.ofField? "/comments" "post_id" post with
  | none =>
    exact congrArg Prod.snd (outcome_threads_unaddressable htarget site)
  | some target =>
    by_cases hpost : post = ""
    · subst hpost
      exact congrArg Prod.snd (threads_unnamed hhost hstore)
    · cases hsendable : (Listing.toJson (threadsOn post l)).isSendable with
      | true => exact congrArg Prod.snd (threads_given hhost hstore hl hpost htarget hsendable)
      | false => exact congrArg Prod.snd (threads_torn hhost hstore hl hpost htarget hsendable)

end Showing

section Logging

variable {τ : Type} {reply : Query → τ → Reply × τ} {setup : Setup}

/-- Where asking for the threads leaves the one who answers as it is, showing them adds
nothing but lines to the terminal. -/
theorem alike_log (before : Scene τ)
    (hserver : ((Client.threads setup.post).outcome reply before.server).2 = before.server)
    (oneline : Bool) : Alike before ((log setup oneline).outcome reply before).2 := by
  have hspares : SparesShown (Alike before) := fun kind _ s text h => ⟨h.prompt, h.file, h.server⟩
  have hshown (ts : List Thread) : ∀ t ∈ ts, ShownThread (fun _ => True) setup t := fun t _ =>
    ⟨⟨fun _ => trivial, fun _ _ => trivial⟩, fun _ _ => ⟨fun _ => trivial, fun _ _ => trivial⟩⟩
  rw [log_eq, outcome_exchange]
  cases hended : (Client.threads setup.post).outcome reply before.server with
  | mk r server =>
    rw [hended] at hserver
    cases hserver
    cases r with
    | ok ts => exact (upholds_sayThreads hspares oneline (hshown ts) _ ⟨rfl, rfl, rfl⟩).1
    | error fault => cases fault <;> exact ⟨rfl, rfl, rfl⟩

/-- What is done after a removal leaves the one who answers as it is, also where the file
cannot be written. -/
theorem ends_forgetting (before : Scene τ) (update : StateFile.Update Unit) {next : Session Unit}
    (hnext : ∀ s : Scene τ, s.server = before.server → Alike s (next.outcome reply s).2) :
    let ended := Session.outcome reply (remembering update >>= fun _ => next) before
    ended.2.server = before.server ∧ ended.2.terminal.prompt = before.terminal.prompt := by
  intro ended
  let written := before.withFile (update.run.run before.terminal.file).2
  have hwritten : (remembering update).outcome reply before = _ :=
    outcome_remembering update before
  cases hresult : (update.run.run before.terminal.file).1 with
  | ok u =>
    rw [hresult] at hwritten
    have hended : ended = next.outcome reply written := outcome_bind_ok hwritten
    have halike : Alike written (next.outcome reply written).2 := hnext written rfl
    rw [hended]
    exact ⟨halike.server, halike.prompt⟩
  | error fault =>
    rw [hresult] at hwritten
    have hended : ended = (.error (.file fault), written) := by
      change Session.outcome reply (remembering update >>= fun _ => next) before = _
      rw [outcome_bind, hwritten]
      rfl
    rw [hended]
    exact ⟨rfl, rfl⟩

end Logging

/-! ## The two changes -/

section Changing

variable {s : Service} {host hash stored answer : String} {setup : Setup} {scene : Scene (Site σ)}

omit [KeyValue σ] [Viewed σ] [TakesAll σ] in
/-- A removal that is begun asks for the password. -/
theorem feed_reset_asked (reply : Query → Site σ → Reply × Site σ) (hdrawn : IsDrawn hash)
    (hidle : scene.terminal.prompt = .idle) (hreflog : scene.terminal.file.reflog = []) :
    (feed setup (resetLine hash)).outcome reply scene =
      (.ok (), (scene.showing (idleText ++ " " ++ resetLine hash : String) .command).atPrompt
        (.deletePassword hash)) := by
  obtain ⟨hline, hstrip⟩ := ofLine?_reset hdrawn
  have hlong : hash.length ≠ shortLength := by
    rw [← String.length_toList, hdrawn.length_eq]
    decide
  let typed := scene.showing (idleText ++ " " ++ ("git reset --hard " ++ hash) : String) .command
  have hcarried : (feed setup ("git reset --hard " ++ hash)).outcome reply scene =
      (resetFull setup hash).outcome reply typed := by
    rw [feed_command hidle hline, hstrip, carryOut, reset, if_pos hlong]
  have hnone : (typed.terminal.file.reflog.get? hash).filter Json.isGiven = none := by
    change (StateFile.Section.get? hash scene.terminal.file.reflog).filter Json.isGiven = none
    rw [hreflog]
    rfl
  refine hcarried.trans ((outcome_bind_ok (outcome_remembered? hash _)).trans ?_)
  rw [hnone]
  rfl

/-- An edit that is begun asks for the password. -/
theorem feed_rebase_asked (h : Locked s host hash stored scene.server)
    (hidle : scene.terminal.prompt = .idle) (hreflog : scene.terminal.file.reflog = []) :
    (feed setup (rebaseLine hash)).outcome (replyOf s host) scene =
      (.ok (), (scene.showing (idleText ++ " " ++ rebaseLine hash : String) .command).atPrompt
        (.editPassword hash)) := by
  let typed := scene.showing (idleText ++ " " ++ ("git rebase -i " ++ hash) : String) .command
  obtain ⟨hline, hstrip⟩ := ofLine?_rebase h.drawn
  obtain ⟨c, l, hhash, hauthor, hl, hletters⟩ := h.kept
  have hkept : Ledger.withHash? hash (Ledger.comments (⟨c, some stored⟩ :: l)) = some c := by
    rw [Ledger.comments_cons, Ledger.withHash?_cons, if_pos hhash]
  have hfound : (Client.comment hash).outcome (replyOf s host) typed.server =
      (.ok c.detail, scene.server) := by
    have ht : KeepsAt scene.server ⟨⟨c, some stored⟩ :: l, scene.server.supply⟩ := ⟨hl, rfl⟩
    rw [← foundAs_of_isPlain (hletters c (Ledger.mem_of_withHash? hkept)) hauthor]
    exact comment_found h.ready.goesBy h.ready.hasStore ht h.drawn hkept
  have hnone : (typed.terminal.file.reflog.get? hash).filter Json.isGiven = none := by
    change (StateFile.Section.get? hash scene.terminal.file.reflog).filter Json.isGiven = none
    rw [hreflog]
    rfl
  have hcarried : (feed setup ("git rebase -i " ++ hash)).outcome (replyOf s host) scene =
      (rebase hash).outcome (replyOf s host) typed := by
    rw [feed_command hidle hline, hstrip, carryOut]
  refine hcarried.trans ((outcome_exchange_ok hfound).trans ?_)
  refine (outcome_bind_ok (outcome_remembered? hash _)).trans ?_
  simp only [Scene.withServer, hnone]
  rfl

/-- Nobody is let through without a password. -/
theorem ne_empty_of_admits {site : Site σ} {l : Ledger} (hl : Keeps site.store l)
    {password : String} (hadmits : Admits hash password site) : password ≠ "" := by
  rintro rfl
  obtain ⟨c, hc⟩ := hadmits
  rw [outcome_authorize hl] at hc
  change Ledger.authorize hash "" l = .ok c at hc
  rw [Ledger.authorize] at hc
  split at hc <;> cases hc

section Removing

variable {l : Ledger}

/-- A removal by one who is let through, with the threads shown behind it or not. -/
theorem isRemoved_delete (scene : Scene (Site σ)) (hidle : scene.terminal.prompt = .idle)
    (hhost : GoesBy s.settings host) (hstore : s.hasStore = true) (hl : Keeps scene.server.store l)
    {password : String} (hadmits : Admits hash password scene.server) (showLog : Bool) :
    IsRemoved hash password scene.server
      ((delete setup hash (.text password) showLog).outcome (replyOf s host) scene).2 := by
  obtain ⟨c, removed, hremoved, hkeeps⟩ := delete_of_admits hl hadmits
  let notice : Notice := ⟨"Comment " ++ hash ++ " deleted."⟩
  have hsent : (Client.delete (.text hash) (.text password)).outcome (replyOf s host) scene.server =
      (.ok notice, removed) := delete_granted hhost hstore hremoved
  let told := (scene.withServer removed).showing notice.message .success
  let next : Session Unit := if showLog then log setup false else pure ()
  have hnext (after : Scene (Site σ)) (hafter : after.server = removed) :
      Alike after (next.outcome (replyOf s host) after).2 := by
    cases showLog with
    | false => exact ⟨rfl, rfl, rfl⟩
    | true =>
      refine alike_log after ?_ false
      rw [hafter]
      exact server_threads hhost hstore hkeeps setup.post
  have hended : (delete setup hash (.text password) showLog).outcome (replyOf s host) scene =
      Session.outcome (replyOf s host)
        (remembering (StateFile.forgetKey (.text hash)) >>= fun _ => next) told :=
    (outcome_exchange_ok hsent).trans (outcome_bind_ok (outcome_print _ _ _))
  obtain ⟨hserver, hprompt⟩ := ends_forgetting told (StateFile.forgetKey (.text hash)) hnext
  rw [hended]
  refine ⟨⟨c, ?_⟩, ?_, hprompt.trans hidle⟩
  · rw [hserver]
    exact hremoved
  · rw [hserver]
    exact not_stored_of_remove hkeeps

/-- The answer to the prompt for a removal that is let through. -/
theorem isRemoved_of_answer (scene : Scene (Site σ)) (hhost : GoesBy s.settings host)
    (hstore : s.hasStore = true) (hl : Keeps scene.server.store l)
    (hprompt : scene.terminal.prompt = .deletePassword hash)
    (hadmits : Admits hash (strip answer) scene.server) :
    IsRemoved hash (strip answer) scene.server
      ((feed setup answer).outcome (replyOf s host) scene).2 := by
  let taken := (scene.showing (Prompt.text (.deletePassword hash) ++ " " ++
    shownAnswer (.deletePassword hash) (strip answer) : String) .command).atPrompt .idle
  rw [feed_sending hprompt rfl (takeAnswer_deletePassword _ _ _) (ne_empty_of_admits hl hadmits)]
  exact isRemoved_delete taken rfl hhost hstore hl hadmits true

end Removing

/-- The answer to the prompt for the message of an edit whose password is let through. -/
theorem isEdited_of_answer {given : String} (h : Locked s host hash stored scene.server)
    (hprompt : scene.terminal.prompt = .editMessage hash given)
    (hadmits : Admits hash given scene.server) (hmessage : isBlankText answer = false)
    (hfits : fits s.settings (strip answer) = true) :
    IsEdited hash given (strip answer) scene.server
      ((feed setup answer).outcome (replyOf s host) scene).2 := by
  obtain ⟨t, ht, hletters, hopens⟩ := h.opens hadmits
  obtain ⟨c, updated, hupdated, hc, hfound⟩ :=
    update_of_opens ht hopens h.isStored h.ready.clock (strip answer)
  have hsaid : isBlankText (strip answer) = false := by rw [isBlankText_strip, hmessage]
  have hturn : Turn ⟨"", ""⟩ t _ := .update hash given hsaid t
  have hsent := update_granted h.ready hsaid hfits hupdated
  obtain ⟨hgoes, hstore, -, ⟨l, hl, -⟩, -⟩ : Ready s host updated :=
    ready_outcome (update_refines hash given (strip answer)) h.ready ht
      (lettered_turn hturn hletters) hupdated
  let told := (((scene.showing (Prompt.text (.editMessage hash given) ++ " " ++
    shownAnswer (.editMessage hash given) (strip answer) : String)
      .command).atPrompt .idle).withServer
      updated).showing ("[" ++ hash ++ "] Comment updated successfully") .success
  have hfed : (feed setup answer).outcome (replyOf s host) scene =
      (log setup false).outcome (replyOf s host) told := feed_editMessage hprompt hmessage hsent
  have halike : Alike told ((log setup false).outcome (replyOf s host) told).2 :=
    alike_log told (server_threads hgoes hstore hl setup.post) false
  rw [hfed]
  exact ⟨⟨c, by rw [halike.server]; exact hupdated, hc, by rw [halike.server]; exact hfound⟩,
    halike.prompt⟩

omit [KeyValue σ] [Viewed σ] [TakesAll σ] in
/-- What is said to a wrong password is the last line. -/
theorem isDenied_exchange {α : Type} {e : Exchange α} {good : α → Session Unit}
    {reply : Query → Site σ → Reply × Site σ} {status : Option Nat} (scene : Scene (Site σ))
    (hidle : scene.terminal.prompt = .idle)
    (hsent : e.outcome reply scene.server =
      (.error (.refused (.text "Invalid password") status), scene.server)) :
    IsDenied scene.server ((exchange e good sayRefusal).outcome reply scene).2 := by
  have hone : RawText.pieces '\n' "Error: Invalid password" =
      [("Error: Invalid password" : RawText)] := by decide +kernel
  have hended : (exchange e good sayRefusal).outcome reply scene =
      (.ok (), scene.showing "Error: Invalid password" .error) := outcome_exchange_refused hsent
  rw [hended]
  refine ⟨rfl, ?_, hidle⟩
  rw [Scene.showing, hone]
  exact List.getLast?_concat

/-- The answer to the prompt for a removal that is not let through. -/
theorem isDenied_of_removal (scene : Scene (Site σ)) (h : Locked s host hash stored scene.server)
    (hprompt : scene.terminal.prompt = .deletePassword hash) (hanswer : isBlankText answer = false)
    (hdenied : ¬Admits hash (strip answer) scene.server) :
    IsDenied scene.server ((feed setup answer).outcome (replyOf s host) scene).2 := by
  let typed := (scene.showing (Prompt.text (.deletePassword hash) ++ " " ++
    shownAnswer (.deletePassword hash) (strip answer) : String) .command).atPrompt .idle
  obtain ⟨l, hl, hwrong⟩ := h.wrong hdenied
  have hsent :
      (Client.delete (.text hash) (.text (strip answer))).outcome (replyOf s host) typed.server =
      (.error (.refused (.text "Invalid password") (some 401)), typed.server) :=
    delete_denied h.ready (delete_of_refused hl hwrong)
  rw [feed_sending hprompt rfl (takeAnswer_deletePassword _ _ _)
    ((strip_ne_empty_iff answer).mpr hanswer)]
  exact isDenied_exchange typed rfl hsent

/-- The answer to the prompt for the message of an edit whose password is not let
through. -/
theorem isDenied_of_edit {given : String} (h : Locked s host hash stored scene.server)
    (hprompt : scene.terminal.prompt = .editMessage hash given)
    (hmessage : isBlankText answer = false) (hfits : fits s.settings (strip answer) = true)
    (hdenied : ¬Admits hash given scene.server) :
    IsDenied scene.server ((feed setup answer).outcome (replyOf s host) scene).2 := by
  let typed := (scene.showing (Prompt.text (.editMessage hash given) ++ " " ++
    shownAnswer (.editMessage hash given) (strip answer) : String) .command).atPrompt .idle
  obtain ⟨l, hl, hwrong⟩ := h.wrong hdenied
  have hsaid : isBlankText (strip answer) = false := by rw [isBlankText_strip, hmessage]
  have hsent : (Client.update (.text hash) (.text given) (strip answer)).outcome (replyOf s host)
      typed.server = (.error (.refused (.text "Invalid password") (some 401)), typed.server) :=
    update_denied h.ready hsaid hfits (update_of_refused hl hwrong)
  rw [feed_sending hprompt rfl (takeAnswer_editMessage _ _ _ _)
    ((strip_ne_empty_iff answer).mpr hmessage)]
  exact isDenied_exchange typed rfl hsent

end Changing

/-! ## Answers to the prompts -/

section Answering

variable {settings : Settings} {salt host hash stored : String}

/-- What the prompts make of any answer, at a terminal that remembers no password. -/
theorem prompted_of_locked (scene : Scene (Site σ))
    (h : Locked ⟨settings, salt, true⟩ host hash stored scene.server)
    (hidle : scene.terminal.prompt = .idle) (hreflog : scene.terminal.file.reflog = [])
    (setup : Setup) (answer : String) :
    Prompted settings (replyOf ⟨settings, salt, true⟩ host) setup hash answer scene := by
  let reply : Query → Site σ → Reply × Site σ := replyOf ⟨settings, salt, true⟩ host
  let removing := (scene.showing (idleText ++ " " ++ resetLine hash : String) .command).atPrompt
    (.deletePassword hash)
  let editing := (scene.showing (idleText ++ " " ++ rebaseLine hash : String) .command).atPrompt
    (.editPassword hash)
  have hremoving (rest : List String) :
      listen reply setup (resetLine hash :: rest) scene = listen reply setup rest removing := by
    rw [listen, feed_reset_asked reply h.drawn hidle hreflog]
  have hediting (rest : List String) :
      listen reply setup (rebaseLine hash :: rest) scene = listen reply setup rest editing := by
    rw [listen, feed_rebase_asked h hidle hreflog]
  -- the answer for the password of an edit is held until the message is answered
  let asked := ((feed setup answer).outcome reply editing).2
  have hasked (hanswer : isBlankText answer = false) :
      asked.terminal.prompt = .editMessage hash (strip answer) ∧ asked.server = scene.server := by
    have hprompt : editing.terminal.prompt = .editPassword hash := rfl
    have hended : asked = ((enter (.editMessage hash (strip answer))).outcome reply
        (editing.showing (Prompt.text (.editPassword hash) ++ " " ++
          shownAnswer (.editPassword hash) (strip answer) : String) .command)).2 :=
      congrArg Prod.snd (feed_given hprompt rfl (takeAnswer_editPassword _ _ _)
        ((strip_ne_empty_iff answer).mpr hanswer))
    rw [hended]
    exact ⟨rfl, rfl⟩
  have hnotBlank (hadmits : Admits hash (strip answer) scene.server) : isBlankText answer = false :=
    (strip_ne_empty_iff answer).mp ((h.admits_iff _).mp hadmits).1
  constructor
  · intro hadmits
    rw [hremoving]
    obtain ⟨l, hl, -⟩ := h.ready.keeps
    exact isRemoved_of_answer removing h.ready.goesBy rfl hl rfl hadmits
  · intro hadmits message hmessage hfits
    obtain ⟨hprompt, hserver⟩ := hasked (hnotBlank hadmits)
    rw [hediting]
    rw [← hserver] at h hadmits ⊢
    exact isEdited_of_answer h hprompt hadmits hmessage hfits
  · intro hblank
    rw [hremoving, hediting]
    have hremoval : Alike removing ((feed setup answer).outcome reply removing).2 :=
      alike_of_blank hblank Step.noConfusion Step.noConfusion
    have hedit : Alike editing ((feed setup answer).outcome reply editing).2 :=
      alike_of_blank hblank Step.noConfusion Step.noConfusion
    exact ⟨⟨hremoval.server, hremoval.prompt⟩, hedit.server, hedit.prompt⟩
  · intro hanswer hdenied
    rw [hremoving]
    refine ⟨isDenied_of_removal removing h rfl hanswer hdenied, ?_⟩
    intro message hmessage hfits
    obtain ⟨hprompt, hserver⟩ := hasked hanswer
    rw [hediting]
    rw [← hserver] at h hdenied ⊢
    exact isDenied_of_edit h hprompt hmessage hfits hdenied

end Answering

/-! ## A comment that was made -/

section Making

variable {settings : Settings} {host salt : String} {supply : Supply} {store : σ}
  {requests : Requests} {setup : Setup} {scene : Scene (Site σ)} {hash password message : String}

/-- A comment that a commit in one line has made is locked with the hash of its password. -/
theorem locked_of_commit (hstore : Keeps store []) (hdigits : ∀ n, IsRandom (supply.digits n))
    (hclock : ∀ n, Time.inRange (supply.clock n) = true)
    (hsalt : (Password.Salt.ofText? salt).isSome = true) (hidle : scene.terminal.prompt = .idle)
    (hserver : scene.server = serve settings requests ⟨store, supply⟩)
    (hpassword : '"' ∉ password.toList) (hne : password ≠ "") (hmessage : '"' ∉ message.toList)
    (hsaid : isBlankText message = false) (habsent : ¬Stored hash scene.server)
    (hmade : Stored hash (listen (replyOf ⟨settings, salt, true⟩ host) setup
      [commitLine password message] scene).server) {salt' : String}
    (hsalt' : (Password.Salt.ofText? salt').isSome = true) :
    ∃ stored, Password.hash? salt password = some stored ∧
      Locked ⟨settings, salt', true⟩ host hash stored (listen (replyOf ⟨settings, salt, true⟩ host)
        setup [commitLine password message] scene).server := by
  let s : Service := ⟨settings, salt, true⟩
  let author := chosenAuthor setup none scene.terminal.file
  let q : Query := ⟨"POST", commentsTarget,
    some (NewComment.body setup.post author (.text password) message none)⟩
  have hposted := (posted_commit (replyOf s host) setup hidle
    (ofLine?_commitLine hpassword hne hmessage) hsaid).1
  have hasked : (listen (replyOf s host) setup [commitLine password message] scene).server =
      (Exchange.outcome (replyOf s host) (send q >>= receive Receipt.reader) scene.server).2 :=
    congrArg Prod.snd hposted
  have hwritable : q.isWritable = true := by
    by_contra htorn
    rw [hasked, Client.outcome_bind,
      outcome_send_of_not _ ((Bool.not_eq_true _).mp htorn)] at hmade
    exact habsent hmade
  have hauthor : author.isSendable = true := by
    have hbody := NewComment.isSendable_body setup.post message none author (.text password)
    exact (Bool.and_true _).symm.trans (hbody.symm.trans hwritable)
  have hsent : (listen (replyOf s host) setup [commitLine password message] scene).server =
      (replyOf s host q scene.server).2 := hasked.trans (server_of_asking _ hwritable _ _)
  rw [hsent] at hmade ⊢
  have hgoes : GoesBy settings host := by
    by_contra hhost
    obtain ⟨response, hreply, -⟩ := unserved_fruitless (s := s) q (ordinary_of_served (by simp [q]))
      hhost scene.server
    rw [hreply] at hmade
    exact habsent hmade
  have hstart : Kept (fun _ => Showable) ⟨.memory, [], []⟩ (⟨store, supply⟩ : Site σ) :=
    ⟨⟨[], supply⟩, ⟨hstore, rfl⟩, List.forall_mem_nil _, showable_nil hdigits⟩
  have hturn (config : Config) (file : StateFile) (t t' : Site Ledger) (h : Turn config t t')
      (hk : Showable t) : Showable t' := showable_turn h hk
  have hbefore := kept_serve settings hturn requests hstart
  rw [← hserver] at hbefore
  obtain ⟨t', ht', hletters', hshowable⟩ :=
    kept_serve settings hturn [(salt, q.toRequest host)] hbefore
  obtain ⟨c', hc'⟩ := (stored_iff ht'.store hash).mp hmade
  have hdrawn : IsDrawn hash := hshowable.isDrawn hc'
  obtain ⟨t, ht, hletters, -⟩ := hbefore
  have hsupply : scene.server.supply.clock = supply.clock := by
    rw [hserver]
    exact (keeps_serve settings requests ⟨[], hstore, List.forall_mem_nil _⟩).2
  have hclock' (n : Nat) :
      Time.inRange ((replyOf s host q scene.server).2.supply.clock n) = true := by
    have hsame : (replyOf s host q scene.server).2.supply.clock = scene.server.supply.clock :=
      (keeps_serve settings [(salt, q.toRequest host)] ⟨_, ht.store, hletters⟩).2
    rw [hsame, hsupply]
    exact hclock n
  have hlocked : LockedWith salt password t.store (replyOf s host q scene.server).2 :=
    lockedWith_replyOf_create s host ht.store hne hsalt setup.post message hauthor none
  obtain ⟨c, stored, hhash, hc, hplain, hkeeps⟩ := lock_of_new hlocked ht.store habsent hmade
  have hletters₂ := lettered_of_keeps ht'.store hkeeps hletters'
  exact ⟨stored, hhash, ⟨hgoes, rfl, hsalt', ⟨_, hkeeps, hletters₂⟩, hclock'⟩, hdrawn, c, t.store,
    hc, hplain, hkeeps, hletters₂⟩

/-- At another terminal, which remembers no password, the prompts take of the password of
a comment what is left without the white space around it. A blank one is asked for again,
and otherwise it is let through if the hash of the whole password accepts it. -/
theorem asked_elsewhere (hstore : Keeps store []) (hdigits : ∀ n, IsRandom (supply.digits n))
    (hclock : ∀ n, Time.inRange (supply.clock n) = true)
    (hsalt : (Password.Salt.ofText? salt).isSome = true) (hidle : scene.terminal.prompt = .idle)
    (hserver : scene.server = serve settings requests ⟨store, supply⟩)
    (hpassword : '"' ∉ password.toList) (hne : password ≠ "") (hmessage : '"' ∉ message.toList)
    (hsaid : isBlankText message = false) (habsent : ¬Stored hash scene.server) :
    let made := (listen (replyOf ⟨settings, salt, true⟩ host) setup [commitLine password message]
      scene).server
    Stored hash made → ∀ (terminal : State), terminal.prompt = .idle → terminal.file.reflog = [] →
      ∀ (otherSetup : Setup) (otherSalt : String),
        (Password.Salt.ofText? otherSalt).isSome = true →
          (∃ stored, Password.hash? salt password = some stored ∧
              (Admits hash (strip password) made ↔ Accepts stored (strip password))) ∧
            ((utf8 (strip password)).take 72 = (utf8 password).take 72 →
              Admits hash (strip password) made) ∧
            Prompted settings (replyOf ⟨settings, otherSalt, true⟩ host) otherSetup hash password
              ⟨terminal, made⟩ := by
  intro made hmade terminal hother hreflog otherSetup otherSalt hotherSalt
  obtain ⟨stored, hstored, hlocked⟩ := locked_of_commit hstore hdigits hclock hsalt hidle hserver
    hpassword hne hmessage hsaid habsent hmade hotherSalt
  refine ⟨⟨stored, hstored, hlocked.admits_iff _⟩, fun hbytes => ?_,
    prompted_of_locked ⟨terminal, made⟩ hlocked hother hreflog otherSetup password⟩
  exact (hlocked.admits_iff _).mpr (accepts_of_take_eq hstored hne hbytes)

end Making

/-- A comment is made with a password, and is removed and edited with it. -/
theorem asked_elsewhere_secret :
    let salt := "$2b$04$abcdefghijklmnopqrstuu"
    let setup : Setup := ⟨"intro", "Guest", 0⟩
    let supply : Supply := ⟨fun _ => "0a1b2c3d4e5f60718293a4b5c6d7e8f9", fun _ => 0, 0, 0⟩
    let scene : Scene (Site Memory) := opening ⟨.memory, [], []⟩ Memory.empty supply
    let made := (listen (replyOf ⟨Settings.standard, salt, true⟩ "localhost") setup
      [commitLine "secret" "Hello"] scene).server
    let answered (lines : List String) :=
      listen (replyOf ⟨Settings.standard, salt, true⟩ "localhost") setup lines
        ⟨State.start ⟨.memory, [], []⟩, made⟩
    ¬Stored "0a1b2c3d" scene.server ∧ Stored "0a1b2c3d" made ∧
      IsRemoved "0a1b2c3d" "secret" made (answered [resetLine "0a1b2c3d", "secret"]) ∧
      IsEdited "0a1b2c3d" "secret" "Bye" made
        (answered [rebaseLine "0a1b2c3d", "secret", "Bye"]) := by
  intro salt setup supply scene
  have hstore : Keeps Memory.empty [] := keeps_nil (fun _ => rfl) (fun _ => rfl)
  have hrandom : IsRandom "0a1b2c3d4e5f60718293a4b5c6d7e8f9" :=
    ⟨by decide, List.all_eq_true.mp (by decide)⟩
  have hepoch : Time.inRange 0 = true := by decide +kernel
  have hsalt : (Password.Salt.ofText? salt).isSome = true := by decide +kernel
  have habsent : ¬Stored "0a1b2c3d" scene.server := by decide +kernel
  have hmade : Stored "0a1b2c3d" (listen (replyOf ⟨Settings.standard, salt, true⟩ "localhost") setup
    [commitLine "secret" "Hello"] scene).server := by decide +kernel
  have hserver : scene.server = serve Settings.standard [] ⟨Memory.empty, supply⟩ := rfl
  have hopened := @asked_elsewhere Memory _ _ _ Settings.standard "localhost" salt supply
    Memory.empty [] setup scene "0a1b2c3d" "secret" "Hello" hstore (fun _ => hrandom)
    (fun _ => hepoch) hsalt rfl hserver (by decide) (by decide) (by decide) (by decide) habsent
  -- the run is not looked into again
  generalize (listen (replyOf ⟨Settings.standard, salt, true⟩ "localhost") setup
    [commitLine "secret" "Hello"] scene).server = made at *
  intro made' answered
  obtain ⟨-, hadmits, hprompted⟩ := hopened hmade (State.start ⟨.memory, [], []⟩) rfl rfl setup salt
    hsalt
  have hstrip : strip "secret" = "secret" := by decide
  have hbye : strip "Bye" = "Bye" := by decide
  have hadmitted := hadmits (by rw [hstrip])
  have hremoved := hprompted.removes hadmitted
  have hedited := hprompted.edits hadmitted "Bye" (by decide) (by decide +kernel)
  rw [hstrip] at hremoved
  rw [hstrip, hbye] at hedited
  exact ⟨habsent, hmade, hremoved, hedited⟩

/-- A comment is made with a blank password. Answered with that password, the prompts for
a removal and for an edit leave it as it is. -/
theorem asked_elsewhere_blank :
    let salt := "$2b$04$abcdefghijklmnopqrstuu"
    let setup : Setup := ⟨"intro", "Guest", 0⟩
    let supply : Supply := ⟨fun _ => "0a1b2c3d4e5f60718293a4b5c6d7e8f9", fun _ => 0, 0, 0⟩
    let scene : Scene (Site Memory) := opening ⟨.memory, [], []⟩ Memory.empty supply
    let made := (listen (replyOf ⟨Settings.standard, salt, true⟩ "localhost") setup
      [commitLine " " "Hello"] scene).server
    let answered (lines : List String) :=
      listen (replyOf ⟨Settings.standard, salt, true⟩ "localhost") setup lines
        ⟨State.start ⟨.memory, [], []⟩, made⟩
    let message? (site : Site Memory) :=
      ((Store.find "0a1b2c3d").outcome site).1.toOption.join.map Comment.message
    ¬Stored "0a1b2c3d" scene.server ∧ Stored "0a1b2c3d" made ∧
      Stored "0a1b2c3d" (answered [resetLine "0a1b2c3d", " "]).server ∧
      message? (answered [rebaseLine "0a1b2c3d", " ", "Bye"]).server =
        some ("Hello" : RawText) := by
  decide +kernel

end CommentThreads.Terminal
