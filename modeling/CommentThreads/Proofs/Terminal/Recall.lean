/-
CommentThreads.Proofs.Terminal.Recall — a remembered password is enough to edit a
comment and to remove it.

`remembered_passwords_open` — whatever lines and requests came before, a password that
is remembered passes the server's check as long as its comment is stored. An edit then
asks for the message only and is made (`EditGoesThrough`), and a removal is made at once
(`RemovalGoesThrough`): in neither is a password ever refused (`Unrefused`). Others may
ask for anything meanwhile, also between the line and the request that it sends, as long
as the comment is there when that arrives.
-/
import CommentThreads.Proofs.Client.LookUp
import CommentThreads.Proofs.Terminal.Prompts
import CommentThreads.Proofs.Terminal.Reflog

namespace CommentThreads.Terminal

open CommentThreads.Client CommentThreads.Command CommentThreads.Http CommentThreads.Server
  CommentThreads.Store CommentThreads.Text

variable {σ : Type} [KeyValue σ]

/-! ## What the server says -/

/-- The server stores a comment with a hash. -/
def Stored (hash : String) (site : Site σ) : Prop :=
  ∃ c, ((Store.find hash).outcome site).1 = .ok (some c)

instance (hash : String) (site : Site σ) : Decidable (Stored hash site) :=
  match h : ((Store.find hash).outcome site).1 with
  | .ok (some c) => .isTrue ⟨c, h⟩
  | .ok none => .isFalse fun ⟨_, hc⟩ => nomatch h.symm.trans hc
  | .error _ => .isFalse fun ⟨_, hc⟩ => nomatch h.symm.trans hc

/-- A password passes the server's check for a comment. -/
def Admits (hash password : String) (site : Site σ) : Prop :=
  ∃ c, ((Store.authorize hash password).outcome site).1 = .ok c

section Asking

variable [Viewed σ] [TakesAll σ] {site : Site σ} {t : Site Ledger} {hash password : String}

/-- What is stored is in the ledger that is kept. -/
theorem stored_iff {l : Ledger} (hl : Keeps site.store l) (hash : String) :
    Stored hash site ↔ ∃ c, Ledger.withHash? hash l.comments = some c := by
  rw [Stored, outcome_find hl]
  simp only [Except.ok.injEq]

theorem admits_of_opens (ht : KeepsAt site t) (h : Opens hash password t.store) :
    ¬Stored hash site ∨ Admits hash password site := by
  cases hc : Ledger.withHash? hash t.store.comments with
  | none =>
    refine .inl fun hstored => ?_
    obtain ⟨c, hc'⟩ := (stored_iff ht.store hash).mp hstored
    rw [hc] at hc'
    cases hc'
  | some c => exact .inr ⟨c, by rw [outcome_authorize ht.store, authorize_of_opens h hc]⟩

end Asking

/-! ## What is typed -/

section Typed

variable {hash : String}

theorem plain_of_drawn (h : IsDrawn hash) : Plain hash.toList :=
  h.forall_chars (P := fun c => isBlank c = false ∧ c ≠ '"') (by decide)

/-- A word behind three others is typed as it is. -/
theorem ofLine?_word {word : String} (hword : Plain word.toList) (hword_ne : word ≠ "")
    {verb flag : String} (hverb : Plain verb.toList) (hverb_ne : verb ≠ "")
    (hflag : Plain flag.toList) (hflag_ne : flag ≠ "") :
    ofLine? (joinWith " " ["git", verb, flag, word]) = ofTokens? ["git", verb, flag, word] ∧
      strip (joinWith " " ["git", verb, flag, word]) = joinWith " " ["git", verb, flag, word] := by
  have hgit : Plain "git".toList := by decide
  have hspells : List.Forall₂ Spells ["git", verb, flag, word] ["git", verb, flag, word] :=
    .cons (.plain hgit (by decide)) (.cons (.plain hverb hverb_ne) (.cons (.plain hflag hflag_ne)
      (.cons (.plain hword hword_ne) .nil)))
  exact ⟨ofLine?_joinWith hspells, strip_joinWith hspells⟩

theorem rebaseLine_eq (hash : String) :
    joinWith " " ["git", "rebase", "-i", hash] = "git rebase -i " ++ hash := by
  simp [joinWith, ← String.append_assoc]

theorem resetLine_eq (hash : String) :
    joinWith " " ["git", "reset", "--hard", hash] = "git reset --hard " ++ hash := by
  simp [joinWith, ← String.append_assoc]

theorem ofLine?_rebase (h : IsDrawn hash) :
    ofLine? ("git rebase -i " ++ hash) = some (.rebase hash) ∧
      strip ("git rebase -i " ++ hash) = "git rebase -i " ++ hash := by
  have hplain : Plain "rebase".toList ∧ Plain "-i".toList := by decide
  obtain ⟨hline, hstrip⟩ :=
    ofLine?_word (plain_of_drawn h) h.ne_empty hplain.1 (by decide) hplain.2 (by decide)
  rw [rebaseLine_eq] at hline hstrip
  exact ⟨hline.trans (ofTokens?_rebase h.ne_empty), hstrip⟩

theorem ofLine?_resetWord {word : String} (hword : Plain word.toList) (hne : word ≠ "") :
    ofLine? ("git reset --hard " ++ word) = some (.reset word) ∧
      strip ("git reset --hard " ++ word) = "git reset --hard " ++ word := by
  have hplain : Plain "reset".toList ∧ Plain "--hard".toList := by decide
  obtain ⟨hline, hstrip⟩ := ofLine?_word hword hne hplain.1 (by decide) hplain.2 (by decide)
  rw [resetLine_eq] at hline hstrip
  exact ⟨hline.trans (ofTokens?_reset hne), hstrip⟩

theorem ofLine?_reset (h : IsDrawn hash) :
    ofLine? ("git reset --hard " ++ hash) = some (.reset hash) ∧
      strip ("git reset --hard " ++ hash) = "git reset --hard " ++ hash :=
  ofLine?_resetWord (plain_of_drawn h) h.ne_empty

end Typed

/-! ## What is remembered -/

/-- An entry that can be used at a service: the password is found at the hash, and
opens its comment. -/
structure Recalled (settings : Settings) (host post : String) (file : StateFile) (t : Site Ledger)
    (hash password : String) : Prop where
  goesBy : GoesBy settings host
  post_ne : post ≠ ""
  given : (file.reflog.get? hash).filter Json.isGiven = some (.text password)
  drawn : ∃ k, hash = firstChars Comment.hashLength (t.supply.digits k)
  opens : Opens hash password t.store

section Recalling

variable {settings : Settings} {host post : String} {supply : Supply} {file : StateFile}
  {t : Site Ledger} {hash password : String}

theorem recalled_of_mem (h : RightReflog settings host post file.reflog t)
    (hentry : (.text hash, .text password) ∈ file.reflog) :
    Recalled settings host post file t hash password := by
  obtain ⟨hash', password', heq, hne, ⟨k, -, hhash⟩, hopens⟩ := h.entries _ hentry
  cases heq
  obtain ⟨hhost, hpost⟩ := h.served (List.ne_nil_of_mem hentry)
  have hfound : file.reflog.get? hash = some (.text password) :=
    Entries.get?_of_mem h.distinct hentry
  refine ⟨hhost, hpost, ?_, ⟨k, hhash⟩, hopens⟩
  rw [hfound]
  simp [Json.isGiven, hne]

theorem Recalled.isDrawn (h : Recalled settings host post file t hash password)
    (hdigits : ∀ n, IsRandom (t.supply.digits n)) : IsDrawn hash := by
  obtain ⟨k, rfl⟩ := h.drawn
  exact isDrawn_firstChars (hdigits k)

end Recalling

/-! ## Refusals -/

/-- What is said to a wrong password. -/
def refusalLine : Line := ⟨.error, "Error: Invalid password"⟩

/-- None of the lines that were printed since says that a password is wrong. -/
def Unrefused (since : Nat) (s : Scene σ) : Prop :=
  ∀ line ∈ s.terminal.output.drop since, line ≠ refusalLine

section Refusing

variable {since : Nat} {s : Scene σ}

omit [KeyValue σ] in
theorem unrefused_showing (h : Unrefused since s) {text : RawText} {kind : LineKind}
    (hnew : ∀ piece ∈ text.pieces '\n', (⟨kind, piece⟩ : Line) ≠ refusalLine) :
    Unrefused since (s.showing text kind) := by
  intro line hline
  rw [Scene.showing, List.drop_append] at hline
  rcases List.mem_append.mp hline with hold | hline
  · exact h line hold
  · obtain ⟨piece, hpiece, rfl⟩ := List.mem_map.mp (List.mem_of_mem_drop hline)
    exact hnew piece hpiece

omit [KeyValue σ] in
theorem unrefused_since_now (s : Scene σ) : Unrefused s.terminal.output.length s := by
  intro line hline
  rw [List.drop_length] at hline
  cases hline

omit [KeyValue σ] in
/-- Only an error says so. -/
theorem sparesShown_unrefused (since : Nat) : SparesShown (Unrefused (σ := σ) since) := by
  intro kind hkind s text h
  refine unrefused_showing h fun piece _ hline => ?_
  exact hkind (congrArg Line.kind hline)

omit [KeyValue σ] in
/-- An error of one line says something else if it is another text. -/
theorem unrefused_error (h : Unrefused since s) {text : String}
    (hline : RawText.pieces '\n' text = [(text : RawText)])
    (hne : text ≠ "Error: Invalid password") :
    Unrefused since (s.showing text .error) := by
  refine unrefused_showing h fun piece hpiece hrefusal => ?_
  rw [hline, List.mem_singleton] at hpiece
  subst hpiece
  exact hne (RawText.plain.inj (congrArg Line.text hrefusal))

end Refusing

/-! ## Waiting for the message -/

/-- What does not lead on from the prompt: requests of others, and blank lines. -/
def Happening.Waits : Happening → Prop
  | .line _ _ text => isBlankText text = true
  | .request _ _ => True

/-- A terminal that waits for the message of an edit. -/
structure Waiting (hash password : String) (file : StateFile) (since : Nat) (s : Scene (Site σ)) :
    Prop where
  prompt_eq : s.terminal.prompt = .editMessage hash password
  file_eq : s.terminal.file = file
  unrefused : Unrefused since s

section Waiting

variable {settings : Settings} {host salt : String} {setup : Setup} {arrivals : List Requests}
  {s : Scene (Site σ)} {hash password : String} {file : StateFile} {since : Nat}

theorem waiting_blank (h : Waiting hash password file since s) {line : String}
    (hline : isBlankText line = true) :
    Waiting hash password file since (feedAmong settings host setup salt arrivals line s).2 := by
  let w : Scene (Site σ × List Requests) := ⟨s.terminal, (s.server, arrivals)⟩
  let prompt : Prompt := .editMessage hash password
  let shown := w.showing (prompt.text ++ " " ++ shownAnswer prompt "" : String) .command
  have hblank : strip line = "" := (strip_eq_empty_iff line).mpr hline
  have hfed : (feed setup line).outcome (replyAmong settings host salt) w =
      (.ok (), shown.showing messageRequired .error) := by
    rw [feed_answer (s := w) h.prompt_eq rfl, hblank]
    rfl
  have hunrefused : Unrefused since shown :=
    sparesShown_unrefused since .command (by decide) w _ h.unrefused
  rw [feedAmong_eq hfed]
  exact ⟨h.prompt_eq, h.file_eq, unrefused_error hunrefused (by decide +kernel) (by decide)⟩

theorem waiting_happenAll {waiting : List Happening} (hwaits : ∀ e ∈ waiting, e.Waits)
    (h : Waiting hash password file since s) :
    Waiting hash password file since (happenAll settings host setup waiting s) := by
  induction waiting generalizing s with
  | nil => exact h
  | cons e rest ih =>
    refine ih (fun e' he' => hwaits e' (List.mem_cons_of_mem e he')) ?_
    have hwait := hwaits e List.mem_cons_self
    cases e with
    | line salt arrivals text => exact waiting_blank h hwait
    | request salt r => exact ⟨h.prompt_eq, h.file_eq, h.unrefused⟩

end Waiting

/-! ## Beginning an edit -/

section Flows

variable [Viewed σ] [TakesAll σ] {settings : Settings} {host salt : String} {setup : Setup}
  {arrivals : List Requests} {s : Scene (Site σ)} {site : Site σ} {t t' : Site Ledger}
  {hash password : String} {since : Nat}

/-- An edit that is begun asks for the message. -/
theorem feed_rebase (hidle : s.terminal.prompt = .idle)
    (hrecalled : Recalled settings host setup.post s.terminal.file t hash password)
    (hdrawn : IsDrawn hash) (hsite : serve settings (arrivals.headD []) s.server = site)
    (ht : KeepsAt site t) (hletters : ∀ c ∈ t.store.comments, Lettered c)
    (hstored : Stored hash site) :
    feedAmong settings host setup salt arrivals ("git rebase -i " ++ hash) s =
      (.ok (), ((s.showing (idleText ++ " " ++ ("git rebase -i " ++ hash) : String)
        .command).atPrompt
        (.editMessage hash password)).withServer site) := by
  let w : Scene (Site σ × List Requests) := ⟨s.terminal, (s.server, arrivals)⟩
  let shown := w.showing (idleText ++ " " ++ ("git rebase -i " ++ hash) : String) .command
  obtain ⟨hline, hstrip⟩ := ofLine?_rebase hdrawn
  obtain ⟨c, hc⟩ := (stored_iff ht.store hash).mp hstored
  have hfound : (Client.comment hash).outcome (replyOf ⟨settings, salt, true⟩ host)
      (serve settings (arrivals.headD []) s.server) = (.ok c.detail, site) := by
    have hauthor := isPlain_author_of_opens hrecalled.opens hc
    rw [hsite, ← foundAs_of_isPlain (hletters c (Ledger.mem_of_withHash? hc)) hauthor]
    exact comment_found hrecalled.goesBy rfl ht hdrawn hc
  have hcomment : (Client.comment hash).outcome (replyAmong settings host salt) shown.server =
      (.ok c.detail, (site, arrivals.tail)) :=
    outcome_among_of_eq (comment_of_target (target_of_faithful hdrawn.faithful)) rfl hfound
  have hbegun : (carryOut setup (.rebase hash)).outcome (replyAmong settings host salt) shown =
      (.ok (), (shown.withServer (site, arrivals.tail)).atPrompt (.editMessage hash password)) := by
    refine (outcome_exchange_ok hcomment).trans ?_
    refine (outcome_bind_ok (outcome_remembered? hash _)).trans ?_
    have hgiven : (shown.terminal.file.reflog.get? hash).filter Json.isGiven =
        some (.text password) := hrecalled.given
    simp only [Scene.withServer, hgiven]
    rfl
  have hfed : (feed setup ("git rebase -i " ++ hash)).outcome (replyAmong settings host salt) w =
      (.ok (), (shown.withServer (site, arrivals.tail)).atPrompt (.editMessage hash password)) := by
    rw [feed_command (s := w) hidle hline, hstrip]
    exact hbegun
  rw [feedAmong_eq hfed]
  rfl

/-! ## The change, and the threads that are shown after it -/

/-- Nothing but lines that are no refusals, and requests of others, since a scene. -/
structure Quiet (settings : Settings) (since : Nat)
    (before after : Scene (Site σ × List Requests)) :
    Prop where
  prompt_eq : after.terminal.prompt = before.terminal.prompt
  file_eq : after.terminal.file = before.terminal.file
  unrefused : Unrefused since after
  server_eq : ∃ more, after.server.1 = serve settings more before.server.1

theorem ready_serve {salt : String} (h : Ready ⟨settings, salt, true⟩ host site)
    (requests : Requests) : Ready ⟨settings, salt, true⟩ host (serve settings requests site) := by
  obtain ⟨hkeeps, hclock⟩ := keeps_serve settings requests h.keeps
  exact ⟨h.goesBy, rfl, h.salt, hkeeps, fun n => by rw [hclock]; exact h.clock n⟩

/-- Showing the threads of a post changes nothing, and is not refused. -/
theorem quiet_log (hpost : setup.post ≠ "") {before : Scene (Site σ × List Requests)}
    (hready : Ready ⟨settings, salt, true⟩ host before.server.1)
    (hunrefused : Unrefused since before) (oneline : Bool) :
    Quiet settings since before
      ((log setup oneline).outcome (replyAmong settings host salt) before).2 := by
  let site := serve settings (before.server.2.headD []) before.server.1
  rw [log_eq]
  cases htarget : Target.ofField? "/comments" "post_id" setup.post with
  | none =>
    rw [outcome_exchange_badAddress (outcome_threads_unaddressable htarget _)]
    exact ⟨rfl, rfl, hunrefused, [], rfl⟩
  | some target =>
    let asked := before.withServer (site, before.server.2.tail)
    have hasked : Quiet settings since before asked := ⟨rfl, rfl, hunrefused, _, rfl⟩
    obtain ⟨hhost, hstore, -, ⟨l, hl, -⟩, -⟩ := ready_serve hready (before.server.2.headD [])
    cases hsendable : (Listing.toJson (threadsOn setup.post l)).isSendable with
    | true =>
      have hgiven := threads_given hhost hstore hl hpost htarget hsendable
      rw [outcome_exchange_ok (outcome_among_of_eq (threads_of_target htarget) rfl hgiven)]
      have hspares : SparesShown (Quiet settings since before) := fun kind hkind s text h =>
        ⟨h.prompt_eq, h.file_eq, sparesShown_unrefused since kind hkind s text h.unrefused,
          h.server_eq⟩
      have hshown : ∀ t ∈ threadsOn setup.post l, ShownThread (fun _ => True) setup t := fun t _ =>
        ⟨⟨fun _ => trivial, fun _ _ => trivial⟩, fun _ _ => ⟨fun _ => trivial, fun _ _ => trivial⟩⟩
      exact (upholds_sayThreads hspares oneline hshown asked hasked).1
    | false =>
      have htorn := threads_torn hhost hstore hl hpost htarget hsendable
      rw [outcome_exchange_refused (outcome_among_of_eq (threads_of_target htarget) rfl htorn)]
      exact ⟨rfl, rfl, unrefused_error hunrefused (by decide +kernel) (by decide), _, rfl⟩

/-- A comment that is stored is edited by one whose password opens it. -/
theorem update_of_opens (ht : KeepsAt site t) (hopens : Opens hash password t.store)
    (hstored : Stored hash site) (hclock : ∀ n, Time.inRange (site.supply.clock n) = true)
    (message : String) :
    ∃ c updated, (Store.update hash password message).outcome site = (.ok c, updated) ∧
      c.message = message ∧ ((Store.find hash).outcome updated).1 = .ok (some c) := by
  obtain ⟨c, hc⟩ := (stored_iff ht.store hash).mp hstored
  have htime : Time.inRange t.supply.nextTime.1 = true := by
    rw [← ht.supply]
    exact hclock _
  obtain ⟨hresult, hkept⟩ := update_refines hash password message site t ht
  rw [Ledger.update, authorize_of_opens hopens hc] at hresult hkept
  simp only [htime, if_true] at hresult hkept
  refine ⟨_, _, Prod.ext hresult rfl, rfl, ?_⟩
  rw [outcome_find hkept.store, Ledger.withHash?_edit, if_pos rfl, hc]
  rfl

/-- Who is let through removes a comment. -/
theorem delete_of_admits {l : Ledger} (hl : Keeps site.store l)
    (hadmits : Admits hash password site) :
    ∃ c removed, (Store.delete hash password).outcome site = (.ok c, removed) ∧
      Keeps removed.store (Ledger.remove hash l) := by
  obtain ⟨c, hc⟩ := hadmits
  rw [outcome_authorize hl] at hc
  change Ledger.authorize hash password l = .ok c at hc
  obtain ⟨hresult, hkept⟩ := delete_refines hash password site ⟨l, site.supply⟩ ⟨hl, rfl⟩
  rw [Ledger.delete, hc] at hresult hkept
  exact ⟨c, _, Prod.ext hresult rfl, hkept.store⟩

theorem not_stored_of_remove {l : Ledger} (hl : Keeps site.store (Ledger.remove hash l)) :
    ¬Stored hash site := by
  rw [stored_iff hl, Ledger.withHash?_comments, Ledger.posting?_remove, if_pos rfl]
  rintro ⟨c, ⟨⟩⟩

omit [TakesAll σ] in
theorem ready_outcome {β : Type} {a : Action β}
    {f : Site Ledger → Except Store.Fault β × Site Ledger}
    (hrefines : Refines σ a f) {service : Service} (h : Ready service host site)
    (ht : KeepsAt site t) (hletters : ∀ c ∈ (f t).2.store.comments, Lettered c)
    {r : Except Store.Fault β} {after : Site σ} (hended : a.outcome site = (r, after)) :
    Ready service host after := by
  obtain ⟨-, hkept⟩ := hrefines site t ht
  rw [hended] at hkept
  refine ⟨h.goesBy, h.hasStore, h.salt, ⟨_, hkept.store, hletters⟩, fun n => ?_⟩
  rw [clock_outcome hended]
  exact h.clock n

omit [KeyValue σ] [Viewed σ] [TakesAll σ] in
/-- The message of an edit that the server makes: the notice is shown, and the threads. -/
theorem feed_editMessage {reply : Query → σ → Reply × σ} {s : Scene σ} {answer : String}
    (hprompt : s.terminal.prompt = .editMessage hash password)
    (hanswer : isBlankText answer = false) {notice : Notice} {after : σ}
    (hsent : (Client.update (.text hash) (.text password) (strip answer)).outcome reply s.server =
      (.ok notice, after)) :
    (feed setup answer).outcome reply s =
      (log setup false).outcome reply
        ((((s.showing (Prompt.text (.editMessage hash password) ++ " " ++
          shownAnswer (.editMessage hash password) (strip answer) : String) .command).atPrompt
            .idle).withServer after).showing notice.message .success) := by
  let typed := (s.showing (Prompt.text (.editMessage hash password) ++ " " ++
    shownAnswer (.editMessage hash password) (strip answer) : String) .command).atPrompt .idle
  have hanswered :
      (Client.update (.text hash) (.text password) (strip answer)).outcome reply typed.server =
      (.ok notice, after) := hsent
  rw [feed_sending hprompt rfl (takeAnswer_editMessage _ _ _ _)
    ((strip_ne_empty_iff answer).mpr hanswer)]
  refine (outcome_exchange_ok hanswered).trans ?_
  exact outcome_bind_ok (outcome_print _ _ _)

/-- What an answer for the message comes to: the server has made the edit, others may
have asked for more since, and no password was refused. -/
structure Edits (settings : Settings) (hash password answer : String) (site : Site σ)
    (file : StateFile) (since : Nat) (ended : Scene (Site σ)) : Prop where
  updated : ∃ c updated more,
    (Store.update hash password (strip answer)).outcome site = (.ok c, updated) ∧
      c.message = strip answer ∧ ((Store.find hash).outcome updated).1 = .ok (some c) ∧
      ended.server = serve settings more updated
  idle : ended.terminal.prompt = .idle
  file_eq : ended.terminal.file = file
  unrefused : Unrefused since ended

theorem feed_message {file : StateFile} (h : Waiting hash password file since s)
    (hrecalled : Recalled settings host setup.post file t hash password)
    (hsite : serve settings (arrivals.headD []) s.server = site) (ht : KeepsAt site t)
    (hletters : ∀ c ∈ t.store.comments, Lettered c)
    (hready : Ready ⟨settings, salt, true⟩ host site) (hstored : Stored hash site) {answer : String}
    (hanswer : isBlankText answer = false) (hfits : fits settings (strip answer) = true) :
    Edits settings hash password answer site file since
      (feedAmong settings host setup salt arrivals answer s).2 := by
  let w : Scene (Site σ × List Requests) := ⟨s.terminal, (s.server, arrivals)⟩
  let prompt : Prompt := .editMessage hash password
  let asked := (w.showing (prompt.text ++ " " ++ shownAnswer prompt (strip answer) : String)
    .command).atPrompt
    .idle
  let notice : Notice := ⟨"[" ++ hash ++ "] Comment updated successfully"⟩
  obtain ⟨c, updated, hupdated, hc, hfound⟩ :=
    update_of_opens ht hrecalled.opens hstored hready.clock (strip answer)
  have hgranted : (Client.update (.text hash) (.text password) (strip answer)).outcome
      (replyOf ⟨settings, salt, true⟩ host) (serve settings (arrivals.headD []) s.server) =
        (.ok notice, updated) := by
    rw [hsite]
    exact update_granted hready (by rw [isBlankText_strip, hanswer]) hfits hupdated
  have hsent : (Client.update (.text hash) (.text password) (strip answer)).outcome
      (replyAmong settings host salt) w.server = (.ok notice, (updated, arrivals.tail)) :=
    outcome_among_of_eq rfl rfl hgranted
  let logged := (asked.withServer (updated, arrivals.tail)).showing notice.message .success
  have hfed : (feed setup answer).outcome (replyAmong settings host salt) w =
      (log setup false).outcome (replyAmong settings host salt) logged :=
    feed_editMessage (s := w) h.prompt_eq hanswer hsent
  have hunrefused : Unrefused since logged :=
    sparesShown_unrefused since .success (by decide) _ _
      (sparesShown_unrefused since .command (by decide) w _ h.unrefused)
  have hmessage : isBlankText (strip answer) = false := by rw [isBlankText_strip, hanswer]
  have hturn : Turn ⟨"", ""⟩ t _ := .update hash password hmessage t
  have hlogged : Ready ⟨settings, salt, true⟩ host logged.server.1 :=
    ready_outcome (update_refines hash password (strip answer)) hready ht
      (lettered_turn hturn hletters) hupdated
  have hquiet := quiet_log hrecalled.post_ne hlogged hunrefused false
  cases hended : (log setup false).outcome (replyAmong settings host salt) logged with
  | mk r after =>
    rw [hended] at hquiet
    obtain ⟨hprompt, hfile, hunrefused, more, hserver⟩ := hquiet
    rw [feedAmong_eq (hfed.trans hended)]
    exact ⟨⟨c, updated, more, hupdated, hc, hfound, hserver⟩, hprompt, hfile.trans h.file_eq,
      hunrefused⟩

/-- What a removal comes to: the server has removed the comment, its entry is dropped,
and no password was refused. It fails only where the file cannot be written. -/
structure Removes (hash password : String) (site : Site σ) (before : Scene (Site σ))
    (ended : Except Fault Unit × Scene (Site σ)) : Prop where
  removed : ∃ c, (Store.delete hash password).outcome site = (.ok c, ended.2.server) ∧
    ¬Stored hash ended.2.server
  reflog_eq : ended.2.terminal.file.reflog = Entries.erase (.text hash) before.terminal.file.reflog
  idle : ended.2.terminal.prompt = .idle
  ok : before.terminal.file.place ≠ .directory → ended.1 = .ok ()
  unrefused : Unrefused before.terminal.output.length ended.2

theorem feed_reset (hidle : s.terminal.prompt = .idle)
    (hrecalled : Recalled settings host setup.post s.terminal.file t hash password)
    (hdrawn : IsDrawn hash) (hsite : serve settings (arrivals.headD []) s.server = site)
    (ht : KeepsAt site t) (hready : Ready ⟨settings, salt, true⟩ host site)
    (hstored : Stored hash site) :
    Removes hash password site s
      (feedAmong settings host setup salt arrivals ("git reset --hard " ++ hash) s) := by
  let w : Scene (Site σ × List Requests) := ⟨s.terminal, (s.server, arrivals)⟩
  let shown := w.showing (idleText ++ " " ++ ("git reset --hard " ++ hash) : String) .command
  let notice : Notice := ⟨"Comment " ++ hash ++ " deleted."⟩
  obtain ⟨hline, hstrip⟩ := ofLine?_reset hdrawn
  have hadmits : Admits hash password site :=
    (admits_of_opens ht hrecalled.opens).resolve_left (not_not_intro hstored)
  obtain ⟨c, removed, hremoved, hkeeps⟩ := delete_of_admits ht.store hadmits
  have hgranted : (Client.delete (.text hash) (.text password)).outcome
      (replyOf ⟨settings, salt, true⟩ host) (serve settings (arrivals.headD []) s.server) =
        (.ok notice, removed) := by
    rw [hsite]
    exact delete_granted hready.goesBy hready.hasStore hremoved
  have hsent : (Client.delete (.text hash) (.text password)).outcome (replyAmong settings host salt)
      shown.server = (.ok notice, (removed, arrivals.tail)) := outcome_among_of_eq rfl rfl hgranted
  let told := (shown.withServer (removed, arrivals.tail)).showing notice.message .success
  have hlong : hash.length ≠ shortLength := by
    rw [← String.length_toList, hdrawn.length_eq]
    decide
  have hfed : (feed setup ("git reset --hard " ++ hash)).outcome (replyAmong settings host salt) w =
      (remembering (StateFile.forget hash)).outcome (replyAmong settings host salt) told := by
    have hgiven : (shown.terminal.file.reflog.get? hash).filter Json.isGiven =
        some (.text password) := hrecalled.given
    rw [feed_command (s := w) hidle hline, hstrip, carryOut, reset, if_pos hlong]
    refine (outcome_bind_ok (outcome_remembered? hash _)).trans ?_
    rw [hgiven]
    refine (outcome_exchange_ok hsent).trans ?_
    refine (outcome_bind_ok (outcome_print _ _ _)).trans ?_
    simp only [Bool.false_eq_true, if_false]
    rw [bind_pure_unit]
    rfl
  have hunrefused : Unrefused s.terminal.output.length told :=
    sparesShown_unrefused _ .success (by decide) _ _
      (sparesShown_unrefused _ .command (by decide) w _ (unrefused_since_now w))
  have hwritten := StateFile.written_forgetKey (.text hash) s.terminal.file
  rw [feedAmong, hfed, outcome_remembering]
  refine ⟨⟨c, hremoved, not_stored_of_remove hkeeps⟩, hwritten.reflog, hidle, fun hplace => ?_,
    hunrefused⟩
  have hok : ((StateFile.forget hash).run.run told.terminal.file).1 = .ok () :=
    hwritten.result hplace
  simp only [hok]
  rfl

/-- An edit of a comment that is stored when it is asked for and when the message is
sent: only the message is asked for, and whatever others do meanwhile, a message that is
not blank and fits becomes the comment's. -/
def EditGoesThrough (settings : Settings) (host : String) (setup : Setup) (hash password : String)
    (s : Scene (Site σ)) : Prop :=
  ∀ salt arrivals, DrawnOnce (serve settings (arrivals.headD []) s.server).supply →
    Stored hash (serve settings (arrivals.headD []) s.server) →
    let asked := ((s.showing (idleText ++ " " ++ ("git rebase -i " ++ hash) : String)
      .command).atPrompt
      (.editMessage hash password)).withServer (serve settings (arrivals.headD []) s.server)
    feedAmong settings host setup salt arrivals ("git rebase -i " ++ hash) s = (.ok (), asked) ∧
      ∀ waiting : List Happening, (∀ e ∈ waiting, e.Waits) → ∀ salt' arrivals' answer,
        let before := happenAll settings host setup waiting asked
        let site := serve settings (arrivals'.headD []) before.server
        (Password.Salt.ofText? salt').isSome = true → DrawnOnce site.supply → Stored hash site →
          isBlankText answer = false → fits settings (strip answer) = true →
            Edits settings hash password answer site s.terminal.file s.terminal.output.length
              (feedAmong settings host setup salt' arrivals' answer before).2

/-- A removal of a comment that is stored when it is asked for is made at once. -/
def RemovalGoesThrough (settings : Settings) (host : String) (setup : Setup)
    (hash password : String) (s : Scene (Site σ)) : Prop :=
  ∀ salt arrivals,
    let site := serve settings (arrivals.headD []) s.server
    (Password.Salt.ofText? salt).isSome = true → DrawnOnce site.supply → Stored hash site →
      Removes hash password site s
        (feedAmong settings host setup salt arrivals ("git reset --hard " ++ hash) s)

section Remembering

variable {supply : Supply} {file : StateFile}

omit [TakesAll σ] in
theorem ready_of_remembers (ht : KeepsAt site t) (hletters : ∀ c ∈ t.store.comments, Lettered c)
    (hk : Remembers settings host setup.post supply file t) (hhost : GoesBy settings host)
    (hclock : ∀ n, Time.inRange (supply.clock n) = true)
    (hsalt : (Password.Salt.ofText? salt).isSome = true) :
    Ready ⟨settings, salt, true⟩ host site := by
  refine ⟨hhost, rfl, hsalt, ⟨_, ht.store, hletters⟩, fun n => ?_⟩
  rw [ht.supply, hk.clock_eq]
  exact hclock n

theorem editGoesThrough_of_mem (hs : Sound (Remembers settings host setup.post supply) s)
    (hdigits : ∀ n, IsRandom (supply.digits n))
    (hclock : ∀ n, Time.inRange (supply.clock n) = true) (hidle : s.terminal.prompt = .idle)
    (hentry : (.text hash, .text password) ∈ s.terminal.file.reflog) :
    EditGoesThrough settings host setup hash password s := by
  have hsecure := secure_remembers settings host setup supply
  intro salt arrivals honce hstored asked
  obtain ⟨t, ht, hletters, hk⟩ := kept_serve settings hsecure.turn (arrivals.headD []) hs.kept
  have hrecalled := recalled_of_mem (hk.right (ht.supply ▸ honce)) hentry
  have hdrawn := hrecalled.isDrawn fun n => by rw [hk.digits_eq]; exact hdigits n
  have hasked : feedAmong settings host setup salt arrivals ("git rebase -i " ++ hash) s =
      (.ok (), asked) := feed_rebase hidle hrecalled hdrawn rfl ht hletters hstored
  refine ⟨hasked, ?_⟩
  intro waiting hwaits salt' arrivals' answer before site hsalt honce' hstored' hanswer hfits
  have hbefore : Sound (Remembers settings host setup.post supply) before := by
    refine sound_happenAll hsecure waiting ?_
    have hfed := (sound_feedAmong hsecure salt arrivals ("git rebase -i " ++ hash) hs
      fun _ _ _ _ _ => .inr trivial).1
    rwa [hasked] at hfed
  have hwaiting : Waiting hash password s.terminal.file s.terminal.output.length before :=
    waiting_happenAll hwaits ⟨rfl, rfl,
      sparesShown_unrefused _ .command (by decide) s _ (unrefused_since_now s)⟩
  obtain ⟨t₂, ht₂, hletters₂, hk₂⟩ :=
    kept_serve settings hsecure.turn (arrivals'.headD []) hbefore.kept
  rw [hwaiting.file_eq] at hk₂
  have hrecalled₂ := recalled_of_mem (hk₂.right (ht₂.supply ▸ honce')) hentry
  exact feed_message hwaiting hrecalled₂ rfl ht₂ hletters₂
    (ready_of_remembers ht₂ hletters₂ hk₂ hrecalled.goesBy hclock hsalt) hstored' hanswer hfits

theorem removalGoesThrough_of_mem (hs : Sound (Remembers settings host setup.post supply) s)
    (hdigits : ∀ n, IsRandom (supply.digits n))
    (hclock : ∀ n, Time.inRange (supply.clock n) = true) (hidle : s.terminal.prompt = .idle)
    (hentry : (.text hash, .text password) ∈ s.terminal.file.reflog) :
    RemovalGoesThrough settings host setup hash password s := by
  have hsecure := secure_remembers settings host setup supply
  intro salt arrivals site hsalt honce hstored
  obtain ⟨t, ht, hletters, hk⟩ := kept_serve settings hsecure.turn (arrivals.headD []) hs.kept
  have hrecalled := recalled_of_mem (hk.right (ht.supply ▸ honce)) hentry
  have hdrawn := hrecalled.isDrawn fun n => by rw [hk.digits_eq]; exact hdigits n
  exact feed_reset hidle hrecalled hdrawn rfl ht
    (ready_of_remembers ht hletters hk hrecalled.goesBy hclock hsalt) hstored

end Remembering

end Flows

/-! ## Any run -/

/-- Whatever has happened, what is remembered is right: the comment is gone, or the
password passes the server's check. So an edit and a removal need no password. -/
theorem remembered_passwords_open [Viewed σ] [TakesAll σ] (settings : Settings) (host : String)
    (setup : Setup)
    {file : StateFile} {store : σ} (supply : Supply) (hstore : Keeps store [])
    (hconfig : file.config = []) (hreflog : file.reflog = []) (happenings : List Happening) :
    let s := happenAll settings host setup happenings (opening file store supply)
    DrawnOnce s.server.supply → ∀ entry ∈ s.terminal.file.reflog, ∃ hash password : String,
      entry = (.text hash, .text password) ∧
        (¬Stored hash s.server ∨ Admits hash password s.server) ∧
        ((∀ n, IsRandom (supply.digits n)) → (∀ n, Time.inRange (supply.clock n) = true) →
          s.terminal.prompt.step = .idle →
            EditGoesThrough settings host setup hash password s ∧
              RemovalGoesThrough settings host setup hash password s) := by
  intro s honce entry hentry
  have hs : Sound (Remembers settings host setup.post supply) s :=
    sound_happenAll (secure_remembers settings host setup supply) happenings
      (remembers_opening settings host setup supply hstore hconfig hreflog)
  obtain ⟨t, ht, -, hk⟩ := hs.kept
  have hright := hk.right (ht.supply ▸ honce)
  obtain ⟨hash, password, rfl, -, -, hopens⟩ := hright.entries entry hentry
  refine ⟨hash, password, rfl, admits_of_opens ht hopens, fun hdigits hclock hstep => ?_⟩
  have hidle : s.terminal.prompt = .idle := hs.prompt.eq_idle (decide_eq_true hstep)
  exact ⟨editGoesThrough_of_mem hs hdigits hclock hidle hentry,
    removalGoesThrough_of_mem hs hdigits hclock hidle hentry⟩

/-- A comment is made with a password, under the settings where nothing is set. -/
theorem remembered_passwords_open_made :
    let setup : Setup := ⟨"intro", "Guest", 0⟩
    let supply : Supply := ⟨fun _ => "0a1b2c3d4e5f60718293a4b5c6d7e8f9", fun _ => 0, 0, 0⟩
    let file : StateFile := ⟨.memory, [], []⟩
    let made : Happening :=
      .line "$2b$04$abcdefghijklmnopqrstuu" [] "git commit --password=secret -m Hello"
    let s := happenAll Settings.standard "localhost" setup [made]
      (opening file Memory.empty supply)
    Keeps Memory.empty [] ∧ file.config = [] ∧ file.reflog = [] ∧ DrawnOnce s.server.supply ∧
      ∃ hash password : String, (.text hash, .text password) ∈ s.terminal.file.reflog ∧
        (¬Stored hash s.server ∨ Admits hash password s.server) ∧
        EditGoesThrough Settings.standard "localhost" setup hash password s ∧
        RemovalGoesThrough Settings.standard "localhost" setup hash password s := by
  intro setup supply file made
  have hstore : Keeps Memory.empty [] := keeps_nil (fun _ => rfl) (fun _ => rfl)
  have hconfig : file.config = [] := rfl
  have hreflog : file.reflog = [] := rfl
  have hopen := remembered_passwords_open Settings.standard "localhost" setup supply hstore hconfig
    hreflog [made]
  have hrun :
      let s := happenAll Settings.standard "localhost" setup [made]
        (opening file Memory.empty supply)
      (s.server.supply.digitsDrawn = 1 && !s.terminal.file.reflog.isEmpty &&
        s.terminal.prompt.isIdle) = true := by decide +kernel
  -- the scene is not looked into again
  generalize happenAll Settings.standard "localhost" setup [made]
    (opening file Memory.empty supply) = s at *
  simp only [Bool.and_eq_true, decide_eq_true_eq, Bool.not_eq_true'] at hrun
  obtain ⟨⟨hdrawn, hsome⟩, hprompt⟩ := hrun
  have honce : DrawnOnce s.server.supply := by
    intro i j hlt hj
    omega
  have hidle : s.terminal.prompt.step = .idle := of_decide_eq_true hprompt
  have hne : s.terminal.file.reflog ≠ [] := by
    intro hnone
    rw [hnone] at hsome
    cases hsome
  have hrandom : IsRandom "0a1b2c3d4e5f60718293a4b5c6d7e8f9" :=
    ⟨by decide, List.all_eq_true.mp (by decide)⟩
  have hepoch : Time.inRange 0 = true := by decide +kernel
  obtain ⟨entry, hentry⟩ := List.exists_mem_of_ne_nil _ hne
  obtain ⟨hash, password, rfl, hright, hflows⟩ := hopen honce entry hentry
  obtain ⟨hedit, hremoval⟩ := hflows (fun _ => hrandom) (fun _ => hepoch) hidle
  exact ⟨hstore, hconfig, hreflog, honce, hash, password, hentry, hright, hedit, hremoval⟩

end CommentThreads.Terminal
